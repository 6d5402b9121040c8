import CallSite.Text.LetterCase
import CallSite.Value

/-!
# Call-site arguments

A call passes positional arguments, which go to the parameters in order, and named ones, which go
to the parameter of their name.

* `NameComparison.equal` – when two names are the same.
* `Arguments.findNamed` – the argument that a name finds.
* `Arguments.setPositional`, `Arguments.setNamed` – give an argument another value; its name and its
  type stay.
-/

namespace CallSite

/-- How the name of an argument is compared with that of a parameter. -/
inductive NameComparison
  /-- Letter for letter. -/
  | caseSensitive
  /-- Without regard to letter case. -/
  | ignoreCase
deriving DecidableEq, Repr

/-- Two names are the same. -/
def NameComparison.equal (names : NameComparison) (a b : String) : Bool :=
  match names with
  | .caseSensitive => a == b
  | .ignoreCase => Text.toSmall a == Text.toSmall b

/-- An argument: its type at the call site, which null lacks, and its value. -/
structure Argument where
  /-- The type at the call site. -/
  type : Option TypeId
  /-- What is passed. -/
  value : Value
deriving DecidableEq, Repr

namespace Argument

/-- The argument null. -/
def null : Argument := ⟨none, .null⟩

/-- An argument that has a type only, for a query that calls nothing. -/
def ofType (t : TypeId) : Argument := ⟨some t, .null⟩

/-- An argument that has the type of its value. -/
def ofValue (value : Value) : Argument := ⟨value.type?, value⟩

end Argument

/-- Change the first item that passes a test. -/
def updateFirst {α : Type} (test : α → Bool) (change : α → α) : List α → List α
  | [] => []
  | item :: items =>
    if test item then change item :: items else item :: updateFirst test change items

/-- **The arguments of a call.** -/
structure Arguments where
  /-- The arguments that go to the parameters in order. -/
  positional : List Argument := []
  /-- The arguments that go to the parameter of their name, in the order of the call. -/
  named : List (String × Argument) := []
  /-- How names are compared in this call, if the call says so. -/
  comparison : Option NameComparison := none
deriving DecidableEq, Repr

namespace Arguments

/-- The number of arguments. -/
def length (arguments : Arguments) : Nat :=
  arguments.positional.length + arguments.named.length

/-- The call passes nothing. -/
def isEmpty (arguments : Arguments) : Bool :=
  arguments.length == 0

/-- The first named argument that a name finds. -/
def findNamed (arguments : Arguments) (names : NameComparison) (name : String) :
    Option Argument :=
  (arguments.named.find? fun entry => names.equal entry.1 name).map Prod.snd

/-- Give the argument at a position another value. -/
def setPositional (arguments : Arguments) (index : Nat) (value : Value) : Arguments :=
  { arguments with
    positional := arguments.positional.modify index fun a => { a with value := value } }

/-- Give the first argument that a name finds another value. -/
def setNamed (arguments : Arguments) (names : NameComparison) (name : String) (value : Value) :
    Arguments :=
  { arguments with
    named := updateFirst (fun entry => names.equal entry.1 name)
      (fun entry => (entry.1, { entry.2 with value := value })) arguments.named }

end Arguments

end CallSite
