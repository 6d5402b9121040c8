import CallSite.Toml.Basic

/-!
# Assembling a configuration

A text gives a configuration piece by piece: headers say where the following names go, and a name
with dots goes through tables of its own. What was given once cannot be given again.

* `assign` – give an item to a name with dots, below the header that is in force.
* `assignInline` – the same inside braces.
* `enterTable`, `enterTables` – what a header with single or double brackets puts in place.
* `assemble` – the table of a whole text.

A header may go through every table and through the last table of a list of tables. A name with
dots may only go through tables that came about on the way to others, and may only end in one that
came about through such a name.
-/

namespace CallSite

namespace Toml

/-- Go through tables to where a path ends, and change the fields there; tables that are missing on
the way come about with the given origin. `change` is told how the table at the end came about. -/
def descend (origin : Origin) (change : Origin → Fields → Option Fields) :
    List String → Origin → Fields → Option Fields
  | [], reached, fields => change reached fields
  | name :: path, _, fields =>
    match fields.get? name with
    | none => do
      let inner ← descend origin change path origin []
      return fields ++ [(name, .table origin inner)]
    | some (.table found inner) =>
      if found = .inline || (origin = .dotted && found = .header) ||
          (origin = .inlineDotted && found ≠ .inlineDotted) ||
          (origin ≠ .inlineDotted && found = .inlineDotted) then none
      else do
        let inner ← descend origin change path found inner
        return fields.replace name (.table found inner)
    | some (.tables elements) =>
      match elements.getLast? with
      | none => none
      | some last => do
        let inner ← descend origin change path .header last
        return fields.replace name (.tables (elements.dropLast ++ [inner]))
    | some _ => none

/-- Give an item to a name that has none yet. -/
def assignNew (name : String) (item : Item) (fields : Fields) : Option Fields :=
  match fields.get? name with
  | none => some (fields ++ [(name, item)])
  | some _ => none

/-- **Give an item to a name with dots.** -/
def assign (path : List String) (name : String) (item : Item) (fields : Fields) : Option Fields :=
  descend .dotted
    (fun reached inner =>
      if path.isEmpty || reached = .dotted then assignNew name item inner else none)
    path .header fields

/-- **Give an item to a name with dots inside braces.** -/
def assignInline (path : List String) (name : String) (item : Item) (fields : Fields) :
    Option Fields :=
  descend .inlineDotted (fun _ => assignNew name item) path .inline fields

/-- A name with dots and its item. -/
structure Assignment where
  /-- The parts before the last dot. -/
  path : List String
  /-- The part behind the last dot. -/
  name : String
  /-- The item. -/
  item : Item

/-- Give an item to each of several names. -/
def assignAll (assignments : List Assignment) (fields : Fields) : Option Fields :=
  assignments.foldlM (fun fields a => assign a.path a.name a.item fields) fields

/-- The table that is written in braces. -/
def inlineTable (assignments : List Assignment) : Option Item :=
  (assignments.foldlM (fun fields a => assignInline a.path a.name a.item fields) []).map
    (Item.table .inline)

/-! ### Sections -/

/-- **Put a table with a header in place.** A table that only came about on the way to others is
completed by its header, and then stands where the header stands. -/
def enterTable (assignments : List Assignment) (name : String) (fields : Fields) :
    Option Fields := do
  let start ← match fields.get? name with
    | none => some []
    | some (.table .implied inner) => some inner
    | some _ => none
  let inner ← assignAll assignments start
  return fields.erase name ++ [(name, .table .header inner)]

/-- **Append a table with a header in double brackets** to the tables of its name. -/
def enterTables (assignments : List Assignment) (name : String) (fields : Fields) :
    Option Fields := do
  let inner ← assignAll assignments []
  match fields.get? name with
  | none => return fields ++ [(name, .tables [inner])]
  | some (.tables elements) => return fields.replace name (.tables (elements ++ [inner]))
  | some _ => none

/-- A header and the names below it. -/
structure Section where
  /-- The parts of the header before the last dot. -/
  path : List String
  /-- The part of the header behind the last dot. -/
  name : String
  /-- The header has double brackets. -/
  repeated : Bool
  /-- The names below the header. -/
  assignments : List Assignment

/-- Put what stands below a header in place. -/
def enter (fields : Fields) (part : Section) : Option Fields :=
  descend .implied
    (fun _ => if part.repeated then enterTables part.assignments part.name
      else enterTable part.assignments part.name)
    part.path .header fields

/-- **The table of a whole text**: the names before the first header, and the sections. -/
def assemble (top : List Assignment) (sections : List Section) : Option Fields := do
  sections.foldlM enter (← assignAll top [])

end Toml

end CallSite
