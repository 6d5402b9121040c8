/-!
# Numerals

Whole numbers in a given radix, as they stand in a text: digits and small or capital letters, with
an optional plus sign before them and nothing else.

* `Text.digit?` – the value of one digit.
* `Text.readNumeral` – the value of a numeral that has at least one digit.
* `Text.readWord` – the same for numbers that fit into 16 bits.
-/

namespace CallSite

namespace Text

/-- The value of a digit in a radix of at most 36. -/
def digit? (radix : Nat) (c : Char) : Option Nat :=
  let n := c.toNat
  let value :=
    if '0' ≤ c && c ≤ '9' then n - '0'.toNat
    else if 'a' ≤ c && c ≤ 'z' then n - 'a'.toNat + 10
    else if 'A' ≤ c && c ≤ 'Z' then n - 'A'.toNat + 10
    else radix
  if value < radix then some value else none

/-- The value of digits behind digits of a given value. -/
def readDigits (radix : Nat) : Nat → List Char → Option Nat
  | value, [] => some value
  | value, c :: cs => do readDigits radix (value * radix + (← digit? radix c)) cs

/-- **The value of a numeral**: an optional plus sign and at least one digit. -/
def readNumeral (radix : Nat) : List Char → Option Nat
  | [] => none
  | ['+'] => none
  | '+' :: cs => readDigits radix 0 cs
  | cs => readDigits radix 0 cs

/-- The value of a numeral that fits into 16 bits. -/
def readWord (radix : Nat) (cs : List Char) : Option UInt16 :=
  match readNumeral radix cs with
  | some value => if value < Nat.pow 2 16 then some (UInt16.ofNat value) else none
  | none => none

end Text

end CallSite
