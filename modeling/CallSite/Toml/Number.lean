import CallSite.Toml.Basic
import CallSite.Toml.Quoted

/-!
# Numbers and times of a configuration

* `readInteger` – whole numbers, decimal or behind `0x`, `0o` or `0b`, that fit into 64 bits.
* `readFloat` – numbers with a fraction or an exponent, and the special ones.
* `readMoment` – dates and times that exist in the calendar.
* `readNumber` – any of them.

Digits may have single underscores between them.
-/

namespace CallSite

namespace Toml

/-! ### Digits -/

/-- A decimal digit. -/
def isDecimal (c : Char) : Bool := '0' ≤ c && c ≤ '9'

/-- The digits that go on behind a digit, without the underscores between them. -/
def moreDigits (isDigit : Char → Bool) : List Char → List Char × List Char
  | [] => ([], [])
  | '_' :: c :: rest =>
    if isDigit c then
      let (digits, rest) := moreDigits isDigit rest
      (c :: digits, rest)
    else ([], '_' :: c :: rest)
  | c :: rest =>
    if isDigit c then
      let (digits, rest) := moreDigits isDigit rest
      (c :: digits, rest)
    else ([], c :: rest)

/-- One digit or more. -/
def readDigits (isDigit : Char → Bool) : Reader (List Char)
  | [] => none
  | c :: rest =>
    if isDigit c then
      let (digits, rest) := moreDigits isDigit rest
      some (c :: digits, rest)
    else none

/-- The value of hexadecimal digits in a radix. -/
def valueOf (radix : Nat) (digits : List Char) : Nat :=
  digits.foldl (fun n c => n * radix + (hexDigit? c).getD 0) 0

/-- The sign before a number: the flag says that it is a minus. -/
def readSign : List Char → Bool × List Char
  | '-' :: rest => (true, rest)
  | '+' :: rest => (false, rest)
  | rest => (false, rest)

/-- A decimal number without superfluous zeros before it. -/
def readDecimal : Reader (List Char)
  | '0' :: rest => some (['0'], rest)
  | cs => readDigits isDecimal cs

/-- What was read, when `rest` is what is left of `cs`. -/
def consumed (cs rest : List Char) : String :=
  String.ofList (cs.take (cs.length - rest.length))

/-! ### Integers -/

/-- A number behind a mark for its radix, less than `2 ^ 63`. -/
def readRadix (radix : Nat) (cs rest : List Char) : Option (Item × List Char) := do
  let isDigit := fun c => (hexDigit? c).any (· < radix)
  let (digits, rest) ← readDigits isDigit rest
  if valueOf radix digits < Nat.pow 2 63 then return (.integer (consumed cs rest), rest) else none

/-- **A whole number** of 64 bits with its sign. -/
def readInteger : Reader Item := fun cs =>
  match cs with
  | '0' :: 'x' :: rest => readRadix 16 cs rest
  | '0' :: 'o' :: rest => readRadix 8 cs rest
  | '0' :: 'b' :: rest => readRadix 2 cs rest
  | _ => do
    let (negative, rest) := readSign cs
    let (digits, rest) ← readDecimal rest
    let bound := if negative then Nat.pow 2 63 else Nat.pow 2 63 - 1
    if valueOf 10 digits ≤ bound then return (.integer (consumed cs rest), rest) else none

/-! ### Floating-point numbers -/

/-- The smallest number that is rounded to infinity: half a step above the largest finite number of
64 bits. -/
def overflowBound : Nat := Nat.pow 2 1024 - Nat.pow 2 970

/-- A decimal number with an exponent is rounded to infinity. -/
def overflows (digits : List Char) (exponent : Int) : Bool :=
  let mantissa := valueOf 10 digits
  let significant := digits.dropWhile (· == '0')
  let magnitude := (significant.length : Int) + exponent
  if mantissa = 0 || magnitude < 308 then false
  else if 310 < magnitude then true
  else if 0 ≤ exponent then overflowBound ≤ mantissa * Nat.pow 10 exponent.toNat
  else overflowBound * Nat.pow 10 (-exponent).toNat ≤ mantissa

/-- The digits behind a point. -/
def readFraction : Reader (List Char)
  | '.' :: rest => readDigits isDecimal rest
  | _ => none

/-- The exponent behind its mark. -/
def readExponent : Reader Int
  | c :: rest =>
    if c = 'e' || c = 'E' then do
      let (negative, rest) := readSign rest
      let (digits, rest) ← readDigits isDecimal rest
      let value : Int := valueOf 10 digits
      return (if negative then -value else value, rest)
    else none
  | [] => none

/-- A number with a fraction, an exponent, or both. One that is rounded to positive infinity is
refused. -/
def readFinite : Reader Item := fun cs => do
  let (negative, rest) := readSign cs
  let (digits, rest) ← readDecimal rest
  let fraction? := readFraction rest
  let (fraction, rest) := fraction?.getD ([], rest)
  let exponent? := readExponent rest
  let (exponent, rest) := exponent?.getD (0, rest)
  if fraction?.isNone && exponent?.isNone then none
  else if !negative && overflows (digits ++ fraction) (exponent - fraction.length) then none
  else return (.float (consumed cs rest), rest)

/-- Infinity, or what is no number. -/
def readSpecial : Reader Item := fun cs =>
  match (readSign cs).2 with
  | 'i' :: 'n' :: 'f' :: rest => some (.float (consumed cs rest), rest)
  | 'n' :: 'a' :: 'n' :: rest => some (.float (consumed cs rest), rest)
  | _ => none

/-- **A floating-point number.** -/
def readFloat : Reader Item := fun cs =>
  (readFinite cs).or (readSpecial cs)

/-! ### Dates and times -/

/-- A number of exactly `count` digits in a range. -/
def readField (count first last : Nat) : Reader Nat := fun cs =>
  let digits := cs.take count
  let value := valueOf 10 digits
  if digits.length = count && digits.all isDecimal && first ≤ value && value ≤ last then
    some (value, cs.drop count)
  else none

/-- Skip a character that has to be there. -/
def skip? (mark : Char) : List Char → Option (List Char)
  | [] => none
  | c :: rest => if c = mark then some rest else none

/-- The number of days of a month. -/
def daysOf (year month : Nat) : Nat :=
  if month = 2 then
    if year % 4 = 0 && (year % 100 ≠ 0 || year % 400 = 0) then 29 else 28
  else if month = 4 || month = 6 || month = 9 || month = 11 then 30
  else 31

/-- A day of the calendar; returns what follows it. -/
def skipDate? (cs : List Char) : Option (List Char) := do
  let (year, rest) ← readField 4 0 9999 cs
  let (month, rest) ← readField 2 1 12 (← skip? '-' rest)
  let (_, rest) ← readField 2 1 (daysOf year month) (← skip? '-' rest)
  return rest

/-- The parts of a second behind a point; returns what follows them. -/
def skipSecondParts : List Char → List Char
  | '.' :: c :: rest => if isDecimal c then rest.dropWhile isDecimal else '.' :: c :: rest
  | rest => rest

/-- A time of day; returns what follows it. -/
def skipTime? (cs : List Char) : Option (List Char) := do
  let (_, rest) ← readField 2 0 23 cs
  let (_, rest) ← readField 2 0 59 (← skip? ':' rest)
  let (_, rest) ← readField 2 0 60 (← skip? ':' rest)
  return skipSecondParts rest

/-- The distance of a local time from universal time; returns what follows it. -/
def skipOffset? : List Char → Option (List Char)
  | [] => none
  | c :: rest =>
    if c = 'Z' || c = 'z' then some rest
    else if c = '+' || c = '-' then do
      let (_, rest) ← readField 2 0 23 rest
      let (_, rest) ← readField 2 0 59 (← skip? ':' rest)
      return rest
    else none

/-- A time of day behind a date, with its distance from universal time; returns what follows it. -/
def skipTimeOfDate? : List Char → Option (List Char)
  | [] => none
  | c :: rest =>
    if c = 'T' || c = 't' || c = ' ' then do
      let rest ← skipTime? rest
      return (skipOffset? rest).getD rest
    else none

/-- **A date, a time, or both.** -/
def readMoment : Reader Item := fun cs => do
  let rest ← match skipDate? cs with
    | some rest => some ((skipTimeOfDate? rest).getD rest)
    | none => skipTime? cs
  return (.moment (consumed cs rest), rest)

/-- **Any number or time.** -/
def readNumber : Reader Item := fun cs =>
  ((readMoment cs).or (readFloat cs)).or (readInteger cs)

end Toml

end CallSite
