import CallSite.Type.Query

/-!
# Values

What is passed to a member and what comes back from it.

* `Value.type?` – the type of a value; null has none.
* `Store.defaultValue` – what a place of a type holds before anything is stored there.
-/

namespace CallSite

/-- A value at a call site. -/
inductive Value
  /-- The null reference. -/
  | null
  /-- A truth value. -/
  | bool (value : Bool)
  /-- A character. -/
  | char (value : Char)
  /-- An integer of 32 bits. -/
  | int32 (value : Int)
  /-- An integer of 64 bits. -/
  | int64 (value : Int)
  /-- A floating-point number, carried as the text that writes it. -/
  | double (text : String)
  /-- A text. -/
  | string (value : String)
  /-- An object of the host, known by a handle. -/
  | object (type : TypeId) (handle : Nat)
  /-- The value of a value type whose parts are all zero. -/
  | zero (type : TypeId)
deriving DecidableEq, Repr

namespace Value

/-- The value is null. -/
def isNull (value : Value) : Bool :=
  value matches .null

/-- **The type of a value** when the program runs. -/
def type? : Value → Option TypeId
  | .null => none
  | .bool _ => some Core.boolean
  | .char _ => some Core.char
  | .int32 _ => some Core.int32
  | .int64 _ => some Core.int64
  | .double _ => some Core.double
  | .string _ => some Core.string
  | .object type _ => some type
  | .zero type => some type

end Value

/-- The zero of a type that has a value form of its own. -/
def primitiveZero? (t : TypeId) : Option Value :=
  if t = Core.boolean then some (.bool false)
  else if t = Core.char then some (.char '\x00')
  else if t = Core.int32 then some (.int32 0)
  else if t = Core.int64 then some (.int64 0)
  else if t = Core.double then some (.double "0.0")
  else none

/-- **What a place holds** before anything is stored there: zero for value types, null for all
others and for value types that may be null. -/
def Store.defaultValue (s : Store) (t : TypeId) : Value :=
  let inner := s.stripByRef t
  match primitiveZero? inner with
  | some value => value
  | none =>
    if (s.nullableUnderlying inner).isSome then .null
    else if (s.info inner).isValueType then .zero inner
    else .null

end CallSite
