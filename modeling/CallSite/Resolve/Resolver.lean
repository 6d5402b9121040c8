import CallSite.Resolve.Candidates
import CallSite.Resolve.Evaluate
import CallSite.Resolve.Select

/-!
# Resolving a member

A **resolver** answers queries on types: it closes the queried definition with the arguments that
the query gives, evaluates the candidates, chooses among them, and closes the winner with the types
that were inferred for it.

* `Resolver.close` – a definition with given arguments, which have to satisfy its constraints.
* `Resolver.choose` – the winner among the candidates on a type.
* `Resolver.tryResolve` – the answer to a query, or nothing where no candidate accepts the call.
* `Resolver.resolve` – the same, with an error in place of nothing.

Where a query on an open definition infers the arguments of the definition, the query is answered
once more on the type that is constructed from them.
-/

namespace CallSite

/-- A computation that may add types to the store and may fail to resolve a member. -/
abbrev ResolveM := EStateM ResolveError Store

/-- Use a computation on types while a member is resolved. -/
def ofTypes {α : Type} (action : TypeM α) : ResolveM α :=
  action.adaptExcept ResolveError.type

/-- **What answers queries.** -/
structure Resolver where
  /-- The members that types declare. -/
  registry : Registry := {}
  /-- What is done where a query leaves it open. -/
  options : Options := {}
  /-- How deep a match may go. -/
  depth : Nat := matchDepth

/-- **The answer to a query.** -/
structure Resolution where
  /-- The member, with all inferred arguments in place. -/
  member : Member
  /-- The queried type, with all inferred arguments in place. -/
  queriedType : TypeId
  /-- The number of steps from the queried type to the declaring type. -/
  depth : Nat
  /-- How the call fits the member. -/
  fit : Fit
deriving DecidableEq, Repr

namespace Resolver

variable (resolver : Resolver)

/-- **Close a definition** with given arguments; nothing, if they do not satisfy its constraints. -/
def close (definition : TypeId) (arguments : List TypeId) : ResolveM (Option TypeId) := do
  let s ← get
  if !(s.info definition).isDefinition then
    throw (.type (.notDefinition (s.display definition)))
  let parameters := s.genericParameters definition
  if parameters.length ≠ arguments.length then
    throw (.type (.argumentCount (s.display definition) parameters.length arguments.length))
  let slots := Slots.ofArity (.type definition) parameters.length
  match matchAll s resolver.depth (arguments.zip parameters) { typeSlots := slots } with
  | none => return none
  | some _ => return some (← ofTypes (construct definition arguments))

/-- The slots for the parameters of a queried definition; a type that is none has no slots. -/
def typeSlots (s : Store) (t : TypeId) : Slots :=
  if (s.info t).isDefinition then Slots.ofArity (.type t) (s.genericParameters t).length
  else Slots.empty

/-- The candidates that accept the call. -/
def accepted (t : TypeId) (query : Query) : ResolveM (List Accepted) := do
  let access := resolver.options.effectiveAccess query.access
  let slots := typeSlots (← get) t
  let found ← ofTypes (candidates resolver.registry access query t)
  let s ← get
  let names := resolver.options.comparison query.arguments
  return found.filterMap fun (member, depth) =>
    (evaluate s resolver.depth names query member slots).map fun (fit, inferred) =>
      { member, depth, fit, inferred }

/-- **The winner** among the candidates on a type. -/
def choose (t : TypeId) (query : Query) : ResolveM (Option Accepted) := do
  let access := resolver.options.effectiveAccess query.access
  match select access (← resolver.accepted t query) with
  | .nobody => return none
  | .winner best => return some best
  | .tie count => throw (.ambiguous query.kind query.name ((← get).display t) count)

/-- Close the winner with the method arguments that were inferred for it. -/
def finish (t : TypeId) (best : Accepted) : ResolveM Resolution := do
  let member ← match best.member.openMethod, best.inferred.methodSlots.values with
    | some _, some arguments => ofTypes (best.member.close arguments)
    | _, _ => pure best.member
  return { member, queriedType := t, depth := best.depth, fit := best.fit }

/-- Answer a query on a type that is no open definition, or is left open. -/
def resolveOn (t : TypeId) (query : Query) : ResolveM (Option Resolution) := do
  match ← resolver.choose t query with
  | none => return none
  | some best => return some (← finish t best)

/-- Answer a query on an open definition: once its arguments are inferred, the query is answered on
the type that is constructed from them. Parameters that are inferred as themselves leave the
definition open. -/
def resolveOpen (t : TypeId) (query : Query) : ResolveM (Option Resolution) := do
  match ← resolver.choose t query with
  | none => return none
  | some best =>
    match best.inferred.typeSlots.values with
    | none => return none
    | some arguments =>
      let closed ← ofTypes (construct t arguments)
      if ((← get).info closed).isDefinition then
        return some (← finish t best)
      else resolver.resolveOn closed { query with typeArguments := [] }

/-- The type on which a query is answered; nothing, if its type arguments do not satisfy the
constraints of the definition. -/
def queriedType (t : TypeId) (query : Query) : ResolveM (Option TypeId) :=
  if query.typeArguments.isEmpty then return some t else resolver.close t query.typeArguments

/-- **Answer a query on a type**, with nothing where no candidate accepts the call. -/
def tryResolve (t : TypeId) (query : Query) : ResolveM (Option Resolution) := do
  if (Text.trim query.name.toList).isEmpty then
    throw .blankName
  match ← resolver.queriedType t query with
  | none => return none
  | some t =>
    if ((← get).info t).isDefinition then resolver.resolveOpen t query
    else resolver.resolveOn t query

/-- **Answer a query on a type**, with an error where no candidate accepts the call. -/
def resolve (t : TypeId) (query : Query) : ResolveM Resolution := do
  match ← resolver.tryResolve t query with
  | some resolution => return resolution
  | none => throw (.notFound query.kind query.name ((← get).display t))

end Resolver

end CallSite
