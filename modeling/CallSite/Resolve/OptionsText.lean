import CallSite.Resolve.Options
import CallSite.Toml.Reader

/-!
# Options as a configuration text

The options of a resolver are the names of the table `resolver`. Names that are not given keep
their usual value, and names that mean nothing are passed over.

* `Options.ofItem?` – the options that an item describes. Besides a table this may be a list, which
  gives the options in the order of their names, or a moment, which gives none of them.
* `Options.ofText` – read and validate the options of a text.
* `Options.ofBytes` – the same for the bytes of a file.
-/

namespace CallSite

open Toml

/-- A mask is given as a text. -/
def Access.ofItem? : Item → Option Access
  | .text value => Access.ofText? value
  | _ => none

/-- A switch is given as a truth value. -/
def switchOfItem? : Item → Option Bool
  | .boolean value => some value
  | _ => none

namespace NameComparison

/-- How a comparison of names is called in a configuration. -/
def text : NameComparison → String
  | .caseSensitive => "case-sensitive"
  | .ignoreCase => "ignore-case"

/-- The comparison that is called by a name. -/
def ofText? (name : String) : Option NameComparison :=
  [NameComparison.caseSensitive, .ignoreCase].find? fun names => names.text == name

/-- An item that holds nothing. -/
def isEmptyItem : Item → Bool
  | .list items => items.isEmpty
  | .table _ fields => fields.isEmpty
  | .tables elements => elements.isEmpty
  | _ => false

/-- A comparison is given as a text, or as a table whose only name is the comparison, with an item
that holds nothing. -/
def ofItem? : Item → Option NameComparison
  | .text value => ofText? value
  | .table _ [(name, item)] => if isEmptyItem item then ofText? name else none
  | _ => none

end NameComparison

namespace Options

/-- Change the options by an item, if it is there. -/
def change {α : Type} (read : Item → Option α) (set : Options → α → Options) (item : Option Item)
    (options : Options) : Option Options :=
  match item with
  | none => some options
  | some item => (read item).map (set options)

/-- The options whose four items are given by a look-up. -/
def ofItems? (item : Nat → String → Option Item) : Option Options := do
  let options : Options := {}
  let options ← options.change Access.ofItem?
    (fun o a => { o with defaultAccess := a }) (item 0 "default-access")
  let options ← options.change switchOfItem?
    (fun o b => { o with ignoreCase := b }) (item 1 "ignore-case")
  let options ← options.change NameComparison.ofItem?
    (fun o n => { o with namedArguments := n }) (item 2 "named-arguments")
  options.change switchOfItem?
    (fun o b => { o with topHierarchy := b }) (item 3 "top-hierarchy")

/-- **The options that an item describes**: a table by name, a list by position. A moment counts as
a table that has none of the names. -/
def ofItem? : Item → Option Options
  | .table _ fields => ofItems? fun _ name => Fields.get? fields name
  | .list items => ofItems? fun position _ => items[position]?
  | .tables elements => ofItems? fun position _ => elements[position]?.map (Item.table .header)
  | .moment _ => some {}
  | _ => none

/-- **Read the options of a text** and validate them. -/
def ofText (text : String) : Except OptionsError Options :=
  match Toml.parse text with
  | none => .error .malformed
  | some fields =>
    match ((Fields.get? fields "resolver").map ofItem?).getD (some {}) with
    | none => .error .malformed
    | some options => do
      options.validate
      return options

/-- Read the options of a file, given by its bytes; without any the file cannot be read. -/
def ofBytes (bytes : Option ByteArray) : Except OptionsError Options :=
  match bytes.bind String.fromUTF8? with
  | none => .error .unreadable
  | some text => ofText text

end Options

end CallSite
