/-!
# Types and what is known of them

A **type** is a number, `CallSite.TypeId`: the place at which a store keeps what is known of
the type. What is known is a `CallSite.TypeInfo` – a name, a shape, the base and interfaces
it was declared with, and, for a generic type, its definition and arguments.

* `Shape` – what kind of type it is; arrays and references carry their element, generic
  parameters carry their owner, their position and their constraints.
* `TypeInfo.isDefinition`, `TypeInfo.isConstructed` – the two ways of being generic: a
  definition lists its own parameters as arguments, a constructed type also names the
  definition it was made from.
* `Flags` – the special constraints of a parameter, a set of bits.

Two types are the same exactly when their numbers are: nothing here looks inside.
-/

namespace CallSite

/-! ### Names of types and methods -/

/-- A type, named by its place in the store that holds it. -/
structure TypeId where
  /-- The place in the store. -/
  index : Nat
deriving DecidableEq, Repr

/-- How a type is written when it is named by its place. -/
def TypeId.text (t : TypeId) : String :=
  "TypeId(" ++ toString t.index ++ ")"

/-- A generic method, named by the order in which methods were met. -/
structure MethodToken where
  /-- The place in the order. -/
  number : Nat
deriving DecidableEq, Repr

/-- How a method token is written. -/
def MethodToken.text (m : MethodToken) : String :=
  "Method(" ++ toString m.number ++ ")"

/-- Who declares a generic parameter. -/
inductive Owner
  /-- A generic type definition. -/
  | type (definition : TypeId)
  /-- A generic method. -/
  | method (token : MethodToken)
deriving DecidableEq, Repr

/-! ### Special constraints -/

/-- The special constraints of a generic parameter, as a set of bits. -/
structure Flags where
  /-- The bits that are set. -/
  bits : UInt8
deriving DecidableEq, Repr

namespace Flags

/-- No special constraint. -/
def none : Flags := ⟨0⟩

/-- The argument is a reference type. -/
def reference : Flags := ⟨1⟩

/-- The argument is a value type that cannot be null. -/
def nonNullableValue : Flags := ⟨2⟩

/-- The argument can be made without arguments. -/
def defaultConstructor : Flags := ⟨4⟩

/-- All flags of `other` are set. -/
def contains (flags other : Flags) : Bool :=
  flags.bits &&& other.bits == other.bits

/-- The flags that are set in either. -/
def union (flags other : Flags) : Flags :=
  ⟨flags.bits ||| other.bits⟩

/-- No flag is set. -/
def isEmpty (flags : Flags) : Bool :=
  flags.bits == 0

end Flags

/-! ### Shapes -/

/-- A generic parameter: who declares it, where, and what it asks of its argument. -/
structure GenericParameter where
  /-- The declaring type or method. -/
  owner : Owner
  /-- The place among the parameters of the owner, from zero. -/
  position : Nat
  /-- The special constraints. -/
  flags : Flags := Flags.none
  /-- The base class and interfaces that an argument must have. -/
  constraints : List TypeId := []
deriving DecidableEq, Repr

/-- What kind of type a type is. -/
inductive Shape
  /-- A class. -/
  | classType
  /-- An interface. -/
  | interfaceType
  /-- A value type. -/
  | structType
  /-- The arrays of `element` with `rank` dimensions. -/
  | arrayType (element : TypeId) (rank : Nat)
  /-- A reference to a place that holds an `element`. -/
  | byRefType (element : TypeId)
  /-- A generic parameter that stands for a type yet to be chosen. -/
  | parameter (parameter : GenericParameter)
deriving DecidableEq, Repr

/-- The shapes that a definition may have. -/
inductive DefinitionKind
  /-- A class that derives from `Object`. -/
  | classKind
  /-- A class that nothing derives from. -/
  | sealedKind
  /-- An interface. -/
  | interfaceKind
  /-- A value type, which derives from `ValueType` and is sealed. -/
  | structKind
deriving DecidableEq, Repr

/-- What is known of a type. -/
structure TypeInfo where
  /-- The simple name, without arguments. -/
  name : String
  /-- What kind of type it is. -/
  shape : Shape
  /-- Nothing derives from it. -/
  isSealed : Bool := false
  /-- It can be made without arguments. -/
  hasDefaultConstructor : Bool := false
  /-- The base class. -/
  base : Option TypeId := none
  /-- The interfaces it declares itself. -/
  interfaces : List TypeId := []
  /-- The definition that it was constructed from. -/
  definition : Option TypeId := none
  /-- The arguments of a constructed type, the own parameters of a definition. -/
  arguments : List TypeId := []
deriving DecidableEq, Repr

namespace TypeInfo

/-- What is known of a type that a store does not hold. -/
def unknown : TypeInfo := { name := "", shape := .classType }

/-- It is an interface. -/
def isInterface (info : TypeInfo) : Bool :=
  info.shape matches .interfaceType

/-- It is a value type. -/
def isValueType (info : TypeInfo) : Bool :=
  info.shape matches .structType

/-- It is a class, an interface or an array. -/
def isReferenceType (info : TypeInfo) : Bool :=
  info.shape matches .classType | .interfaceType | .arrayType _ _

/-- It is a reference to a place. -/
def isByRef (info : TypeInfo) : Bool :=
  info.shape matches .byRefType _

/-- It is a generic parameter. -/
def isParameter (info : TypeInfo) : Bool :=
  info.shape matches .parameter _

/-- The generic parameter that it is. -/
def parameter? (info : TypeInfo) : Option GenericParameter :=
  match info.shape with
  | .parameter p => some p
  | _ => none

/-- The element of an array or a reference. -/
def element? (info : TypeInfo) : Option TypeId :=
  match info.shape with
  | .arrayType element _ => some element
  | .byRefType element => some element
  | _ => none

/-- It is a generic type, defined or constructed. -/
def isGeneric (info : TypeInfo) : Bool :=
  !info.arguments.isEmpty

/-- It is a generic type that was constructed from a definition. -/
def isConstructed (info : TypeInfo) : Bool :=
  info.definition.isSome

/-- It is the definition of a generic type. -/
def isDefinition (info : TypeInfo) : Bool :=
  info.definition.isNone && info.isGeneric

end TypeInfo

end CallSite
