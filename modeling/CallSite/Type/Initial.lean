import CallSite.Type.Define

/-!
# The store that a program begins with

`Store.initial` holds the types of `CallSite.Core`, made in the order of their numbers: the roots,
the interfaces, the definition of nullable types, the value types with their interfaces, texts,
and the bases of arrays and event handlers.
-/

namespace CallSite

namespace Initial

/-- Define a type as part of the first store. -/
def define (name : String) (kind : DefinitionKind) (parameters : List String := []) :
    TypeM TypeId :=
  modifyGet (·.define name kind parameters)

/-- A value type that can be ordered and compared with itself, and written in a format if asked. -/
def valueType (name : String) (formattable : Bool) : TypeM Unit := do
  let t ← define name .structKind
  modify (·.addInterface t Core.comparable)
  let equatable ← construct Core.equatable [t]
  modify (·.addInterface t equatable)
  if formattable then
    modify (·.addInterface t Core.formattable)

/-- A class that cannot be made without arguments. -/
def classType (name : String) : TypeM TypeId := do
  let t ← define name .classKind
  modify (·.setDefaultConstructor t false)
  return t

/-- Make every type that a store begins with. -/
def types : TypeM Unit := do
  let object ← addType
    { name := "Object", shape := .classType, hasDefaultConstructor := true }
  modify (·.register "Object" object)
  discard <| classType "ValueType"
  discard <| define "IComparable" .interfaceKind
  discard <| define "IFormattable" .interfaceKind
  let enumerable ← define "IEnumerable" .interfaceKind
  discard <| define "IEquatable" .interfaceKind ["T"]
  let enumerableOf ← define "IEnumerable" .interfaceKind ["T"]
  modify (·.addInterface enumerableOf enumerable)
  let nullable ← define "Nullable" .structKind ["T"]
  for parameter in (← get).genericParameters nullable do
    modify (·.setConstraints parameter Flags.nonNullableValue [])
  discard <| define "Void" .structKind
  valueType "Boolean" false
  valueType "Char" false
  valueType "Int32" true
  valueType "Int64" true
  valueType "Double" true
  let string ← define "String" .sealedKind
  modify (·.setDefaultConstructor string false)
  modify (·.addInterface string Core.comparable)
  let equatable ← construct Core.equatable [string]
  modify (·.addInterface string equatable)
  let characters ← construct Core.enumerableOf [Core.char]
  modify (·.addInterface string characters)
  let array ← classType "Array"
  modify (·.addInterface array enumerable)
  discard <| classType "Delegate"

end Initial

/-- **The store that a program begins with.** -/
def Store.initial : Store :=
  match Initial.types {} with
  | .ok _ s => s
  | .error _ s => s

end CallSite
