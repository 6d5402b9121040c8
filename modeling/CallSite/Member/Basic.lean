import CallSite.Access
import CallSite.Call.Parameter

/-!
# Members

A **member** is a field, a property, a method, a constructor or an event that a type declares.

* `Member.field`, `Member.property`, `Member.method`, `Member.constructor`, `Member.event` – a
  public instance member of each kind.
* `Member.openMethod` – the token of a generic method that has no arguments yet.
-/

namespace CallSite

/-- What kind of member a member is. -/
inductive MemberKind
  /-- A field. -/
  | field
  /-- A property, which may have parameters. -/
  | property
  /-- A method. -/
  | method
  /-- A constructor. -/
  | constructor
  /-- An event. -/
  | event
deriving DecidableEq, Repr

/-- How a kind of member is called. -/
def MemberKind.text : MemberKind → String
  | .field => "field"
  | .property => "property"
  | .method => "method"
  | .constructor => "constructor"
  | .event => "event"

/-- The name that all constructors share. -/
def constructorName : String := ".ctor"

/-- **A member of a type.** -/
structure Member where
  /-- The number under which it is registered; zero before that. -/
  id : Nat := 0
  /-- The name. -/
  name : String
  /-- The type that declares it. -/
  declaringType : TypeId
  /-- What kind of member it is. -/
  kind : MemberKind
  /-- The formal parameters. -/
  parameters : List Parameter := []
  /-- The token of a generic method. -/
  genericMethod : Option MethodToken := none
  /-- The generic parameters of a generic method. -/
  genericParameters : List TypeId := []
  /-- The arguments of a generic method, once it has them. -/
  genericArguments : List TypeId := []
  /-- How widely it can be seen. -/
  visibility : Visibility := .everywhere
  /-- It belongs to the type and not to an instance. -/
  isStatic : Bool := false
  /-- The type of a field or property, of what a method returns, of the handlers of an event, and
  of what a constructor makes. -/
  valueType : Option TypeId := none
deriving DecidableEq, Repr

namespace Member

/-- A field of a type. -/
def field (name : String) (declaringType type : TypeId) : Member :=
  { name, declaringType, kind := .field, valueType := some type }

/-- A property of a type, with parameters if it is indexed. -/
def property (name : String) (declaringType : TypeId) (parameters : List Parameter)
    (type : TypeId) : Member :=
  { name, declaringType, kind := .property, parameters, valueType := some type }

/-- A method. -/
def method (name : String) (declaringType : TypeId) (parameters : List Parameter)
    (returned : TypeId) : Member :=
  { name, declaringType, kind := .method, parameters, valueType := some returned }

/-- A constructor. -/
def constructor (declaringType : TypeId) (parameters : List Parameter) : Member :=
  { name := constructorName, declaringType, kind := .constructor, parameters
    valueType := some declaringType }

/-- An event with the type of its handlers. -/
def event (name : String) (declaringType handler : TypeId) : Member :=
  { name, declaringType, kind := .event, valueType := some handler }

/-- Declare the member as a generic method. -/
def withGenericMethod (member : Member) (token : MethodToken) (parameters : List TypeId) :
    Member :=
  { member with genericMethod := some token, genericParameters := parameters }

/-- **The token of a generic method that has no arguments yet.** -/
def openMethod (member : Member) : Option MethodToken :=
  if member.genericArguments.isEmpty then member.genericMethod else none

/-- The owner of the generic parameters that are still open. -/
def methodOwner (member : Member) : Option Owner :=
  member.openMethod.map Owner.method

end Member

end CallSite
