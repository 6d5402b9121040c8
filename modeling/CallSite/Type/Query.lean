import CallSite.Type.Store

/-!
# Questions about a type

Functions that read a store and change nothing.

* `Store.nullableUnderlying`, `Store.stripByRef`, `Store.genericDefinition`,
  `Store.genericParameters` – the parts of a type.
* `Store.isOpen` – the type mentions a generic parameter.
* `Store.isNullAssignable` – null may be stored in a place of the type.
* `Store.display` – how the type is written, arguments and all.

Elements and arguments of a type are made before the type itself, and the parameters of a
definition have no parts. So a descent into the parts of a type ends within as many steps as
there are types, and that is the bound which `isOpen` and `display` recurse on.
-/

namespace CallSite

namespace Store

/-- The argument of a type constructed from `Core.nullable`. -/
def nullableUnderlying (s : Store) (t : TypeId) : Option TypeId :=
  let info := s.info t
  if info.definition = some Core.nullable then info.arguments.head? else none

/-- The definition of a constructed type, or the type itself if it is a definition. -/
def genericDefinition (s : Store) (t : TypeId) : Option TypeId :=
  let info := s.info t
  match info.definition with
  | some definition => some definition
  | none => if info.isDefinition then some t else none

/-- The parameters of a generic definition. -/
def genericParameters (s : Store) (t : TypeId) : List TypeId :=
  let info := s.info t
  if info.isDefinition then info.arguments else []

/-- What a reference refers to, and any other type itself. -/
def stripByRef (s : Store) (t : TypeId) : TypeId :=
  match (s.info t).shape with
  | .byRefType element => element
  | _ => t

/-- The type mentions a generic parameter, as far as `depth` steps into its parts show. -/
def isOpenWithin (s : Store) : Nat → TypeId → Bool
  | 0, _ => false
  | depth + 1, t =>
    let info := s.info t
    match info.shape with
    | .parameter _ => true
    | .arrayType element _ => s.isOpenWithin depth element
    | .byRefType element => s.isOpenWithin depth element
    | _ => info.arguments.any (s.isOpenWithin depth)

/-- **The type mentions a generic parameter.** -/
def isOpen (s : Store) (t : TypeId) : Bool :=
  s.isOpenWithin (s.size + 1) t

/-- **Null may be stored** in a place of the type: a place of a parameter that admits nullable
arguments, of a nullable value type, or of any type that is no value type. -/
def isNullAssignable (s : Store) (t : TypeId) : Bool :=
  let inner := s.stripByRef t
  match (s.info inner).shape with
  | .parameter p => !p.flags.contains Flags.nonNullableValue
  | .structType => (s.nullableUnderlying inner).isSome
  | _ => true

/-- The mark behind the element of an array: a comma for each dimension after the first. -/
def rankMark (rank : Nat) : String :=
  "[" ++ String.ofList (List.replicate (rank - 1) ',') ++ "]"

/-- How a type is written, with its parts written as far as `depth` steps go. -/
def displayWithin (s : Store) : Nat → TypeId → String
  | 0, t => (s.info t).name
  | depth + 1, t =>
    let info := s.info t
    match info.shape with
    | .arrayType element rank => s.displayWithin depth element ++ rankMark rank
    | .byRefType element => s.displayWithin depth element ++ "&"
    | _ =>
      if info.isGeneric then
        info.name ++ "<" ++ ", ".intercalate (info.arguments.map (s.displayWithin depth)) ++ ">"
      else info.name

/-- **How a type is written**: `List<Int32>`, `Int32[]`, `String&`. -/
def display (s : Store) (t : TypeId) : String :=
  s.displayWithin (s.size + 1) t

end Store

end CallSite
