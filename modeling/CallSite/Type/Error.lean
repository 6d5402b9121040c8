/-!
# What can go wrong with types

Each way to fail is a constructor of `CallSite.TypeError` that carries the parts its sentence
needs; `CallSite.TypeError.message` says the sentence.
-/

namespace CallSite

/-- **Why a type cannot be made or found**. -/
inductive TypeError
  /-- A definition was given the wrong number of arguments. -/
  | argumentCount (type : String) (expected actual : Nat)
  /-- Arguments were given to what is no generic definition. -/
  | notDefinition (type : String)
  /-- No type has this name. -/
  | undefinedName (name : String)
  /-- Constraints were given to what is no generic parameter. -/
  | notParameter (type : String)
  /-- A type whose base or interfaces need ever larger types to be made first. -/
  | endless (type : String)
deriving DecidableEq, Repr

/-- The sentence that reports the error. -/
def TypeError.message : TypeError → String
  | .argumentCount type expected actual =>
    "Invalid type argument count for " ++ type ++ ": expected " ++ toString expected ++
      ", got " ++ toString actual
  | .notDefinition type => type ++ " is not a generic type definition"
  | .undefinedName name => "Undefined type: " ++ name
  | .notParameter type => type ++ " is not a generic parameter"
  | .endless type => type ++ " cannot be built: its hierarchy expands without end"

end CallSite
