/-!
# Quoted texts of a configuration

A configuration has four kinds of quotes. Double quotes know escapes and single ones do not, and
each may be tripled to hold several lines.

* `readBasic`, `readLiteral` – texts on one line.
* `readLongBasic`, `readLongLiteral` – texts on several lines.

Every reader is given what follows the opening quotes, and returns the text together with what
follows the closing ones. Where a reader does not follow the structure of its input, it is bounded
by the number of characters.
-/

namespace CallSite

namespace Toml

/-- Read something from the front of a text. -/
abbrev Reader (α : Type) := List Char → Option (α × List Char)

/-! ### Characters -/

/-- A character that may stand on a line: a tab, and anything that is no control character. -/
def isPlain (c : Char) : Bool :=
  c == '\t' || (0x20 ≤ c.toNat && c.toNat ≤ 0x7E) || 0x80 ≤ c.toNat

/-- A space or a tab. -/
def isSpace (c : Char) : Bool :=
  c == ' ' || c == '\t'

/-- Skip spaces, tabs and line ends. -/
def skipSpaceLines : List Char → List Char
  | ' ' :: rest => skipSpaceLines rest
  | '\t' :: rest => skipSpaceLines rest
  | '\n' :: rest => skipSpaceLines rest
  | '\r' :: '\n' :: rest => skipSpaceLines rest
  | rest => rest

/-- Skip one line end. -/
def skipLineEnd? : List Char → Option (List Char)
  | '\n' :: rest => some rest
  | '\r' :: '\n' :: rest => some rest
  | _ => none

/-! ### Escapes -/

/-- The value of a hexadecimal digit. -/
def hexDigit? (c : Char) : Option Nat :=
  if '0' ≤ c && c ≤ '9' then some (c.toNat - '0'.toNat)
  else if 'a' ≤ c && c ≤ 'f' then some (c.toNat - 'a'.toNat + 10)
  else if 'A' ≤ c && c ≤ 'F' then some (c.toNat - 'A'.toNat + 10)
  else none

/-- The character with a number of exactly `count` hexadecimal digits. -/
def readCodePoint (count : Nat) : Reader Char := fun cs => do
  let digits ← (cs.take count).mapM hexDigit?
  if digits.length = count then
    let n := digits.foldl (fun n d => n * 16 + d) 0
    if n.isValidChar then some (Char.ofNat n, cs.drop count) else none
  else none

/-- The character that an escape stands for, read behind its backslash. -/
def readEscape : Reader Char
  | 'b' :: rest => some ('\x08', rest)
  | 't' :: rest => some ('\t', rest)
  | 'n' :: rest => some ('\n', rest)
  | 'f' :: rest => some ('\x0c', rest)
  | 'r' :: rest => some ('\r', rest)
  | '"' :: rest => some ('"', rest)
  | '\\' :: rest => some ('\\', rest)
  | 'u' :: rest => readCodePoint 4 rest
  | 'U' :: rest => readCodePoint 8 rest
  | _ => none

/-! ### Texts on one line -/

/-- A text in double quotes, in at most the given number of steps. -/
def readBasicWithin : Nat → Reader (List Char)
  | 0, _ => none
  | _, [] => none
  | steps + 1, c :: rest =>
    if c = '"' then some ([], rest)
    else if c = '\\' then do
      let (c, rest) ← readEscape rest
      let (text, rest) ← readBasicWithin steps rest
      return (c :: text, rest)
    else if isPlain c then do
      let (text, rest) ← readBasicWithin steps rest
      return (c :: text, rest)
    else none

/-- **A text in double quotes.** -/
def readBasic : Reader String := fun cs =>
  (readBasicWithin (cs.length + 1) cs).map fun (text, rest) => (String.ofList text, rest)

/-- **A text in single quotes.** -/
def readLiteral : Reader String := fun cs =>
  let isInside := fun c => isPlain c && c != '\''
  match cs.dropWhile isInside with
  | '\'' :: rest => some (String.ofList (cs.takeWhile isInside), rest)
  | _ => none

/-! ### Texts on several lines -/

/-- Quotes inside a text on several lines: fewer than three of them belong to the text, and of more
the last three close it. The flag says that they do. -/
def readQuotes (mark : Char) : List Char → Option (List Char × Bool × List Char) := fun cs =>
  let marks := cs.takeWhile (· == mark)
  let rest := cs.dropWhile (· == mark)
  if marks.length < 3 then some (marks, false, rest)
  else if marks.length < 6 then some (marks.drop 3, true, rest)
  else none

/-- A text on several lines, in at most the given number of steps. -/
def readLongWithin (mark : Char) (escapes : Bool) : Nat → Reader (List Char)
  | 0, _ => none
  | _, [] => none
  | steps + 1, c :: rest =>
    if c = mark then do
      let (marks, closed, rest) ← readQuotes mark (c :: rest)
      if closed then return (marks, rest)
      let (text, rest) ← readLongWithin mark escapes steps rest
      return (marks ++ text, rest)
    else if escapes && c = '\\' then
      match skipLineEnd? (rest.dropWhile isSpace) with
      | some rest => readLongWithin mark escapes steps (skipSpaceLines rest)
      | none => do
        let (c, rest) ← readEscape rest
        let (text, rest) ← readLongWithin mark escapes steps rest
        return (c :: text, rest)
    else match skipLineEnd? (c :: rest) with
      | some rest => do
        let (text, rest) ← readLongWithin mark escapes steps rest
        return ('\n' :: text, rest)
      | none =>
        if isPlain c then do
          let (text, rest) ← readLongWithin mark escapes steps rest
          return (c :: text, rest)
        else none

/-- A text on several lines. A line end directly behind the opening quotes does not belong to it. -/
def readLong (mark : Char) (escapes : Bool) : Reader String := fun cs =>
  let cs := (skipLineEnd? cs).getD cs
  (readLongWithin mark escapes (cs.length + 1) cs).map fun (text, rest) =>
    (String.ofList text, rest)

/-- **A text in three double quotes.** -/
def readLongBasic : Reader String := readLong '"' true

/-- **A text in three single quotes.** -/
def readLongLiteral : Reader String := readLong '\'' false

end Toml

end CallSite
