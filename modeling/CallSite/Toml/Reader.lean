import CallSite.Toml.Assemble
import CallSite.Toml.Number

/-!
# Reading a configuration

* `readKey` – names with dots between their parts.
* `readValueWithin` – values, with lists and tables in braces inside one another.
* `readStatements` – the lines of a text: headers, and names with their values.
* `Toml.parse` – the table that a text describes.

Values may be nested up to a depth of 79, and names may have up to 79 parts. All readers are bounded
by the number of characters that they are given.
-/

namespace CallSite

namespace Toml

/-- The depth that nested values and names with dots have to stay below. -/
def nestingLimit : Nat := 80

/-! ### Space and comments -/

/-- Skip spaces, line ends and comments; the flag says that a comment has begun. -/
def skipLines : Bool → List Char → List Char
  | _, [] => []
  | _, '\n' :: rest => skipLines false rest
  | _, '\r' :: '\n' :: rest => skipLines false rest
  | true, c :: rest => if isPlain c then skipLines true rest else c :: rest
  | false, c :: rest =>
    if isSpace c then skipLines false rest
    else if c = '#' then skipLines true rest
    else c :: rest

/-- Skip a comment. -/
def skipComment : List Char → List Char
  | '#' :: rest => rest.dropWhile isPlain
  | rest => rest

/-- Skip what is left of a line: spaces, a comment, and the line end, which the last line may
lack. -/
def skipRestOfLine? (cs : List Char) : Option (List Char) :=
  match skipComment (cs.dropWhile isSpace) with
  | [] => some []
  | rest => skipLineEnd? rest

/-! ### Names -/

/-- A character of a name without quotes. -/
def isBare (c : Char) : Bool :=
  c.isAlphanum || c == '_' || c == '-'

/-- One part of a name. -/
def readKeyPart : Reader String
  | [] => none
  | '"' :: rest => readBasic rest
  | '\'' :: rest => readLiteral rest
  | cs =>
    let name := cs.takeWhile isBare
    if name.isEmpty then none else some (String.ofList name, cs.dropWhile isBare)

/-- The parts of a name, with spaces around each, in at most the given number of steps. -/
def readKeyWithin : Nat → Reader (List String)
  | 0, _ => none
  | steps + 1, cs => do
    let (part, rest) ← readKeyPart (cs.dropWhile isSpace)
    match rest.dropWhile isSpace with
    | '.' :: rest =>
      let (parts, rest) ← readKeyWithin steps rest
      return (part :: parts, rest)
    | rest => return ([part], rest)

/-- **A name**: the parts before its last dot, and the part behind it. -/
def readKey : Reader (List String × String) := fun cs => do
  let (parts, rest) ← readKeyWithin (cs.length + 1) cs
  let last ← parts.getLast?
  if parts.length < nestingLimit then return ((parts.dropLast, last), rest) else none

/-! ### Values -/

mutual

/-- **A value** at some depth inside others, in at most the given number of steps. -/
def readValueWithin : Nat → Nat → Reader Item
  | 0, _, _ => none
  | _, _, [] => none
  | steps + 1, depth, c :: rest =>
    match c with
    | '"' =>
      match rest with
      | '"' :: '"' :: rest => (readLongBasic rest).map fun (text, rest) => (.text text, rest)
      | _ => (readBasic rest).map fun (text, rest) => (.text text, rest)
    | '\'' =>
      match rest with
      | '\'' :: '\'' :: rest => (readLongLiteral rest).map fun (text, rest) => (.text text, rest)
      | _ => (readLiteral rest).map fun (text, rest) => (.text text, rest)
    | '[' =>
      if depth + 1 < nestingLimit then
        (readItemsWithin steps (depth + 1) rest).map fun (items, rest) => (.list items, rest)
      else none
    | '\x7b' =>
      if depth + 1 < nestingLimit then
        match rest.dropWhile isSpace with
        | '\x7d' :: rest => some (.table .inline [], rest)
        | rest => do
          let (assignments, rest) ← readFieldsWithin steps (depth + 1) rest
          return (← inlineTable assignments, rest)
      else none
    | _ =>
      match c :: rest with
      | 't' :: 'r' :: 'u' :: 'e' :: rest => some (.boolean true, rest)
      | 'f' :: 'a' :: 'l' :: 's' :: 'e' :: rest => some (.boolean false, rest)
      | cs => readNumber cs

/-- The items of a list up to its closing bracket, in at most the given number of steps. -/
def readItemsWithin : Nat → Nat → Reader (List Item)
  | 0, _, _ => none
  | steps + 1, depth, cs =>
    match skipLines false cs with
    | ']' :: rest => some ([], rest)
    | cs => do
      let (item, rest) ← readValueWithin steps depth cs
      match skipLines false rest with
      | ']' :: rest => return ([item], rest)
      | ',' :: rest =>
        let (items, rest) ← readItemsWithin steps depth rest
        return (item :: items, rest)
      | _ => none

/-- The names of a table in braces with their values, up to the closing brace, in at most the given
number of steps. -/
def readFieldsWithin : Nat → Nat → Reader (List Assignment)
  | 0, _, _ => none
  | steps + 1, depth, cs => do
    let ((path, name), rest) ← readKey cs
    let rest ← skip? '=' rest
    let (item, rest) ← readValueWithin steps depth (rest.dropWhile isSpace)
    let assignment : Assignment := { path, name, item }
    match rest.dropWhile isSpace with
    | '\x7d' :: rest => return ([assignment], rest)
    | ',' :: rest =>
      let (assignments, rest) ← readFieldsWithin steps depth rest
      return (assignment :: assignments, rest)
    | _ => none

end

/-! ### Lines -/

/-- What a line of a configuration says. -/
inductive Statement
  /-- The following names go into a table, or into another table of a list. -/
  | header (path : List String) (name : String) (repeated : Bool)
  /-- A name has a value. -/
  | assignment (assignment : Assignment)

/-- A header behind its opening brackets. -/
def readHeader (repeated : Bool) : Reader Statement := fun cs => do
  let ((path, name), rest) ← readKey cs
  let rest ← skip? ']' rest
  let rest ← if repeated then skip? ']' rest else some rest
  return (.header path name repeated, rest)

/-- A name with its value. -/
def readAssignment : Reader Statement := fun cs => do
  let ((path, name), rest) ← readKey cs
  let rest ← skip? '=' rest
  let (item, rest) ← readValueWithin (rest.length + 1) 0 (rest.dropWhile isSpace)
  return (.assignment { path, name, item }, rest)

/-- One statement. -/
def readStatement : Reader Statement
  | '[' :: '[' :: rest => readHeader true rest
  | '[' :: rest => readHeader false rest
  | cs => readAssignment cs

/-- **The statements of a text**, in at most the given number of steps. -/
def readStatements : Nat → List Char → Option (List Statement)
  | 0, _ => none
  | steps + 1, cs =>
    match skipLines false cs with
    | [] => some []
    | cs => do
      let (statement, rest) ← readStatement cs
      let rest ← skipRestOfLine? rest
      return statement :: (← readStatements steps rest)

/-- The assignments before the first header, and the sections below the headers. -/
def sections : List Statement → List Assignment × List Section
  | [] => ([], [])
  | .assignment a :: rest =>
    let (top, parts) := sections rest
    (a :: top, parts)
  | .header path name repeated :: rest =>
    let (top, parts) := sections rest
    ([], { path, name, repeated, assignments := top } :: parts)

/-- Skip the mark that some programs put before a text. -/
def skipByteOrderMark : List Char → List Char
  | '\ufeff' :: rest => rest
  | rest => rest

/-- **The table that a text describes**, if it is a configuration. -/
def parse (text : String) : Option Fields := do
  let cs := skipByteOrderMark text.toList
  let statements ← readStatements (cs.length + 1) cs
  let (top, parts) := sections statements
  assemble top parts

end Toml

end CallSite
