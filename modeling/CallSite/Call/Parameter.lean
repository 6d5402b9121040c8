import CallSite.Call.Argument

/-!
# Formal parameters

A **parameter** has a position, perhaps a name, a type, and perhaps a default. One that may be
written by the callee has a reference type; an *out* parameter is only written.
-/

namespace CallSite

/-- What a parameter gets when the call leaves it out. -/
inductive DefaultValue
  /-- A constant. -/
  | constant (value : Value)
  /-- What a place of the type of the parameter holds from the start. -/
  | ofType
deriving DecidableEq, Repr

/-- A formal parameter of a method, a constructor or an indexed property. -/
structure Parameter where
  /-- The place in the list of parameters. -/
  position : Nat
  /-- The name, if it has one. -/
  name : Option String
  /-- The declared type. -/
  type : TypeId
  /-- What it gets when the call leaves it out. -/
  default : Option DefaultValue := none
  /-- It is written by the callee and read by the caller. -/
  isOut : Bool := false
deriving DecidableEq, Repr

namespace Parameter

/-- The call may leave it out. -/
def isOptional (p : Parameter) : Bool :=
  p.default.isSome

/-- It is passed by reference. -/
def isByRef (s : Store) (p : Parameter) : Bool :=
  (s.info p.type).isByRef

/-- Its name, unless that is empty. -/
def givenName (p : Parameter) : Option String :=
  p.name.filter fun name => !name.isEmpty

/-- A name is its name. -/
def isNamed (p : Parameter) (names : NameComparison) (name : String) : Bool :=
  p.name.any fun own => names.equal own name

end Parameter

end CallSite
