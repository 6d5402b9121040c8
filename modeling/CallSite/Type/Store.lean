import CallSite.Type.Error
import CallSite.Type.Substitution

/-!
# The store of types

A **store** holds everything that is known of the types of one program: a row for each type,
the names under which types can be found, the method parameters that were made again under a
substitution, and how many generic methods have been met. It only grows: a row is never taken
away, and its shape, definition and arguments never change once they are there.

* `Store.info` – the row of a type.
* `Store.add`, `Store.edit` – append a row, change a row.
* `Store.find?` – the first type whose row passes a test. Constructed types, arrays and
  references are looked up in this way before they are made, so that each exists once.
* `TypeM` – computations that may add types and may fail. What was added before a failure
  stays.
* `Core` – the types that every store begins with.
-/

namespace CallSite

/-- The request under which method parameters are made again: the method, and the definition
and types of the substitution that changes their constraints. -/
structure RebindKey where
  /-- The method whose parameters are made again. -/
  method : MethodToken
  /-- The definition whose parameters are replaced in the constraints. -/
  typeOwner : Option TypeId
  /-- The types that replace them. -/
  typeArguments : List TypeId
deriving DecidableEq, Repr

/-- **The types of one program.** -/
structure Store where
  /-- What is known of each type, in the order in which types were made. -/
  types : Array TypeInfo := #[]
  /-- The types that can be found by name, the latest first. -/
  names : List (String × TypeId) := []
  /-- The method parameters that were made again, with the request for each. -/
  rebound : List (RebindKey × (MethodToken × List TypeId)) := []
  /-- How many generic methods have been met. -/
  nextMethod : Nat := 0
deriving DecidableEq, Repr

namespace Store

/-! ### Rows -/

/-- What is known of a type, if the store holds it. -/
def info? (s : Store) (t : TypeId) : Option TypeInfo :=
  s.types[t.index]?

/-- What is known of a type. -/
def info (s : Store) (t : TypeId) : TypeInfo :=
  (s.info? t).getD TypeInfo.unknown

/-- The number of types. -/
def size (s : Store) : Nat :=
  s.types.size

/-- The type that the next row will belong to. -/
def next (s : Store) : TypeId :=
  ⟨s.types.size⟩

/-- Append a row. The new type is the one that was `next`. -/
def add (s : Store) (info : TypeInfo) : TypeId × Store :=
  (s.next, { s with types := s.types.push info })

/-- Change what is known of a type. -/
def edit (s : Store) (t : TypeId) (change : TypeInfo → TypeInfo) : Store :=
  { s with types := s.types.modify t.index change }

/-- The first type whose row passes a test. -/
def find? (s : Store) (test : TypeInfo → Bool) : Option TypeId :=
  (s.types.findIdx? test).map TypeId.mk

/-- The type constructed from a definition and arguments, if it was made before. -/
def constructed? (s : Store) (definition : TypeId) (arguments : List TypeId) : Option TypeId :=
  s.find? fun info => info.definition = some definition ∧ info.arguments = arguments

/-- The arrays of an element, if that type was made before. -/
def array? (s : Store) (element : TypeId) (rank : Nat) : Option TypeId :=
  s.find? fun info => info.shape = .arrayType element rank

/-- The reference to an element, if that type was made before. -/
def byRef? (s : Store) (element : TypeId) : Option TypeId :=
  s.find? fun info => info.shape = .byRefType element

/-! ### What is known after a change -/

@[simp]
theorem size_add (s : Store) (info : TypeInfo) : (s.add info).2.size = s.size + 1 := by
  simp [add, size]

@[simp]
theorem size_edit (s : Store) (t : TypeId) (change : TypeInfo → TypeInfo) :
    (s.edit t change).size = s.size := by
  simp [edit, size]

/-- A row that is appended is what is known of the new type. -/
theorem info_add_next (s : Store) (info : TypeInfo) : (s.add info).2.info s.next = info := by
  simp [add, info?, Store.info, next]

/-- Appending a row changes nothing that was known before. -/
theorem info_add_of_lt {s : Store} (info : TypeInfo) {t : TypeId} (h : t.index < s.size) :
    (s.add info).2.info t = s.info t := by
  have h' : t.index < s.types.size := h
  simp [add, info?, Store.info, Array.getElem?_push_lt h', h']

/-- Changing a type changes nothing that is known of another. -/
theorem info_edit_of_ne (s : Store) {t u : TypeId} (change : TypeInfo → TypeInfo) (h : t ≠ u) :
    (s.edit t change).info u = s.info u := by
  have h' : t.index ≠ u.index := fun e => h (by cases t; cases u; simp_all)
  simp [edit, info?, Store.info, Array.getElem?_modify, h']

/-- A type that is found passes the test. -/
theorem of_find?_eq_some {s : Store} {test : TypeInfo → Bool} {t : TypeId}
    (h : s.find? test = some t) : ∃ info, s.info? t = some info ∧ test info := by
  simp only [find?, Option.map_eq_some_iff] at h
  obtain ⟨i, hi, rfl⟩ := h
  obtain ⟨hlt, hp, -⟩ := Array.findIdx?_eq_some_iff_getElem.1 hi
  exact ⟨s.types[i], by simp [info?, hlt], hp⟩

/-! ### Names -/

/-- Let a name stand for a type, in place of what it stood for before. -/
def register (s : Store) (name : String) (t : TypeId) : Store :=
  { s with names := (name, t) :: s.names }

/-- The type that a name stands for. -/
def lookup? (s : Store) (name : String) : Option TypeId :=
  s.names.lookup name

/-- The type that a name stands for, or why there is none. -/
def resolve (s : Store) (name : String) : Except TypeError TypeId :=
  match s.lookup? name with
  | some t => .ok t
  | none => .error (.undefinedName name)

/-! ### Methods -/

/-- Meet another generic method. Numbers are not bounded here, so none is given out twice. -/
def newMethod (s : Store) : MethodToken × Store :=
  (⟨s.nextMethod⟩, { s with nextMethod := s.nextMethod + 1 })

end Store

/-- A computation that may add types to the store and may fail. -/
abbrev TypeM := EStateM TypeError Store

/-! ### The types that every store begins with

They stand in the order in which they are made. The gaps in the numbering belong to the parameters
of the definitions and to the types that the interfaces of the first value types need. -/

namespace Core

/-- The root of all classes. -/
def object : TypeId := ⟨0⟩

/-- The base of all value types. -/
def valueType : TypeId := ⟨1⟩

/-- What can be ordered. -/
def comparable : TypeId := ⟨2⟩

/-- What can be written in a given format. -/
def formattable : TypeId := ⟨3⟩

/-- What can be walked through. -/
def enumerable : TypeId := ⟨4⟩

/-- The definition of what can be compared with its argument. -/
def equatable : TypeId := ⟨5⟩

/-- The definition of what can be walked through and yields its argument. -/
def enumerableOf : TypeId := ⟨7⟩

/-- The definition of a value type that may also be null. -/
def nullable : TypeId := ⟨9⟩

/-- The type of what returns nothing. -/
def void : TypeId := ⟨11⟩

/-- Truth values. -/
def boolean : TypeId := ⟨12⟩

/-- Characters. -/
def char : TypeId := ⟨14⟩

/-- Integers of 32 bits. -/
def int32 : TypeId := ⟨16⟩

/-- Integers of 64 bits. -/
def int64 : TypeId := ⟨18⟩

/-- Floating-point numbers of 64 bits. -/
def double : TypeId := ⟨20⟩

/-- Texts. -/
def string : TypeId := ⟨22⟩

/-- The base of all arrays. -/
def array : TypeId := ⟨25⟩

/-- The base of all event handlers. -/
def delegate : TypeId := ⟨26⟩

end Core

end CallSite
