/-!
# Configuration trees

A configuration text in TOML describes a **table**: names with items, where an item is a value, a
list of items, or a table again.

* `Item` – the tree. A table remembers how it came about, since that decides what may still be
  added to it.
* `Item.field?` – the item of a name.
-/

namespace CallSite

namespace Toml

/-- **How a table came about.** -/
inductive Origin
  /-- It has a header of its own, or is the whole text. -/
  | header
  /-- A longer header went through it. -/
  | implied
  /-- A name with dots went through it. -/
  | dotted
  /-- It is written in braces. -/
  | inline
  /-- A name with dots inside braces went through it. -/
  | inlineDotted
deriving DecidableEq, Repr

/-- **An item of a configuration.** Numbers and times keep the text that writes them. -/
inductive Item
  /-- A text. -/
  | text (value : String)
  /-- A truth value. -/
  | boolean (value : Bool)
  /-- An integer. -/
  | integer (digits : String)
  /-- A floating-point number. -/
  | float (digits : String)
  /-- A date, a time, or both. -/
  | moment (digits : String)
  /-- A list in brackets. -/
  | list (items : List Item)
  /-- A table. -/
  | table (origin : Origin) (fields : List (String × Item))
  /-- The tables whose headers have double brackets. -/
  | tables (elements : List (List (String × Item)))

/-- The names of a table with their items, in the order in which they were given. -/
abbrev Fields := List (String × Item)

namespace Fields

/-- The item of a name. -/
def get? (fields : Fields) (name : String) : Option Item :=
  fields.lookup name

/-- Give the first item of a name another one in its place. -/
def replace (fields : Fields) (name : String) (item : Item) : Fields :=
  fields.map fun entry => if entry.1 == name then (name, item) else entry

/-- Take the item of a name away. -/
def erase (fields : Fields) (name : String) : Fields :=
  fields.filter fun entry => entry.1 != name

end Fields

end Toml

end CallSite
