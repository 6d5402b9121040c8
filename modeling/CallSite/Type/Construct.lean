import CallSite.Type.Query

/-!
# Making types from types

Constructed types, arrays and references are made on demand and each only once: a type that the
store already holds is returned as it is, so two of them are the same type exactly when they are
made of the same parts.

* `construct` – a generic definition with arguments for its parameters. The base and interfaces of
  the result are those of the definition with the parameters replaced.
* `arrayOf`, `byRef`, `nullableOf` – the other ways to make a type from a type.
* `substitute` – replace the parameters that occur in a type.

A constructed type is entered **before** its base and interfaces are worked out, because these may
mention it: `Number<T>` may have the interface `IEquatable<Number<T>>`. Every further construction
on the way enters a type of its own. So constructions that are nested deeper than there are numbers
for types come from a hierarchy that expands without end: `Store.depthBound` leaves room for that
many of them, and only beyond it the answer is `TypeError.endless`.
-/

namespace CallSite

/-- How many types, and how many methods, have a number of 32 bits. -/
def idLimit : Nat := Nat.pow 2 32

/-- The nesting at which a construction is given up. Between two constructions lies what stands
above a definition, which is never nested deeper than the store is large. -/
def Store.depthBound (s : Store) : Nat :=
  idLimit * (s.size + 3)

/-- Append a row to the store. -/
def addType (info : TypeInfo) : TypeM TypeId :=
  modifyGet (·.add info)

/-- **The reference to an element.** -/
def byRef (element : TypeId) : TypeM TypeId := do
  let s ← get
  match s.byRef? element with
  | some t => return t
  | none =>
    addType
      { name := (s.info element).name ++ "&"
        shape := .byRefType element
        isSealed := true }

/-- The row of an array type. -/
def arrayInfo (s : Store) (element : TypeId) (rank : Nat) (interfaces : List TypeId) : TypeInfo :=
  { name := (s.info element).name ++ Store.rankMark rank
    shape := .arrayType element rank
    isSealed := true
    base := some Core.array
    interfaces := interfaces }

/-- The row with which a constructed type is entered, before its base and interfaces are known. -/
def constructedInfo (info : TypeInfo) (definition : TypeId) (arguments : List TypeId) : TypeInfo :=
  { info with
    base := none
    interfaces := []
    definition := some definition
    arguments := arguments }

/-! ### Bounded recursion -/

mutual

/-- `substitute` with a bound on the nesting. -/
def substituteWithin : Nat → Substitution → TypeId → TypeM TypeId
  | 0, _, t => do throw (.endless ((← get).display t))
  | depth + 1, σ, t => do
    if σ.isEmpty then
      return t
    let info := (← get).info t
    match info.shape with
    | .parameter p => return (σ.lookup p).getD t
    | .arrayType element rank =>
      let replaced ← substituteWithin depth σ element
      if replaced = element then return t else arrayOfWithin depth replaced rank
    | .byRefType element =>
      let replaced ← substituteWithin depth σ element
      if replaced = element then return t else byRef replaced
    | _ =>
      if info.isGeneric then
        let replaced ← info.arguments.mapM (substituteWithin depth σ)
        if replaced = info.arguments then return t
        else constructWithin depth (info.definition.getD t) replaced
      else return t

/-- `construct` with a bound on the nesting. -/
def constructWithin : Nat → TypeId → List TypeId → TypeM TypeId
  | 0, definition, _ => do throw (.endless ((← get).display definition))
  | depth + 1, definition, arguments => do
    let s ← get
    let info := s.info definition
    if !info.isDefinition then
      throw (.notDefinition (s.display definition))
    if info.arguments.length ≠ arguments.length then
      throw (.argumentCount (s.display definition) info.arguments.length arguments.length)
    if info.arguments = arguments then
      return definition
    match s.constructed? definition arguments with
    | some t => return t
    | none =>
      let t ← addType (constructedInfo info definition arguments)
      let σ := Substitution.forType definition arguments
      let base ← info.base.mapM (substituteWithin depth σ)
      let interfaces ← info.interfaces.mapM (substituteWithin depth σ)
      modify (·.edit t fun row => { row with base := base, interfaces := interfaces })
      return t

/-- `arrayOf` with a bound on the nesting. -/
def arrayOfWithin : Nat → TypeId → Nat → TypeM TypeId
  | 0, element, _ => do throw (.endless ((← get).display element))
  | depth + 1, element, rank => do
    let rank := max rank 1
    match (← get).array? element rank with
    | some t => return t
    | none =>
      let interfaces ←
        if rank = 1 then pure [← constructWithin depth Core.enumerableOf [element]] else pure []
      let s ← get
      match s.array? element rank with
      | some t => return t
      | none => addType (arrayInfo s element rank interfaces)

end

/-! ### The operations -/

/-- **Replace the parameters** that occur in a type. -/
def substitute (σ : Substitution) (t : TypeId) : TypeM TypeId := do
  substituteWithin (← get).depthBound σ t

/-- **The type constructed** from a definition and arguments. The own parameters of the definition
as arguments give the definition itself. -/
def construct (definition : TypeId) (arguments : List TypeId) : TypeM TypeId := do
  constructWithin (← get).depthBound definition arguments

/-- **The arrays of an element.** Those of one dimension can be walked through and yield the
element. -/
def arrayOf (element : TypeId) (rank : Nat) : TypeM TypeId := do
  arrayOfWithin (← get).depthBound element rank

/-- The values of a type and null. -/
def nullableOf (t : TypeId) : TypeM TypeId :=
  construct Core.nullable [t]

end CallSite
