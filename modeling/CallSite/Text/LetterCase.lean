import CallSite.Text.CaseTable

/-!
# Letter case

How a text is written in small letters, after the full mapping of the Unicode standard, and how it
is written in capital letters as far as these are ASCII.

* `Text.toSmall` – small letters. A capital sigma becomes `ς` at the end of a word and `σ`
  elsewhere, and `İ` becomes two characters; all other letters are looked up one by one.
* `Text.toCapital` – capital letters, with every character whose capital form lies outside ASCII
  left alone. Two texts of which one is ASCII are compared correctly in this form.
-/

namespace CallSite

namespace Text

/-! ### Small letters -/

/-- The ranges hold a character. -/
def inRanges (ranges : Array (Nat × Nat)) (c : Char) : Bool :=
  ranges.any fun (first, last) => first ≤ c.toNat && c.toNat ≤ last

/-- The small letter of a character, where it is another single letter that does not depend on its
neighbours. -/
def smallLetter? (c : Char) : Option Char :=
  smallLetters.findSome? fun (first, last, step, small) =>
    let n := c.toNat
    if first ≤ n && n ≤ last && (n - first) % step == 0 then some (Char.ofNat (small + (n - first)))
    else none

/-- The small form of a character that does not depend on its neighbours. -/
def smallForm (c : Char) : List Char :=
  if c.toNat < 0x80 then [c.toLower]
  else if c = 'İ' then ['i', '\u0307']
  else [(smallLetter? c).getD c]

/-- The next character, after those that are passed over, is a letter that has case. -/
def meetsCased (cs : List Char) : Bool :=
  match cs.dropWhile (inRanges caseIgnorable) with
  | [] => false
  | c :: _ => inRanges casedLetters c

/-- The small form of a sigma with the given characters before it (the nearest first) and behind
it: a word ends where a letter stands before it and none behind it. -/
def smallSigma (before behind : List Char) : Char :=
  if meetsCased before && !meetsCased behind then 'ς' else 'σ'

/-- The small letters of a text that continues the characters `before`, the nearest first. -/
def smallFrom (before : List Char) : List Char → List Char
  | [] => []
  | c :: behind =>
    (if c = 'Σ' then [smallSigma before behind] else smallForm c) ++ smallFrom (c :: before) behind

/-- **A text in small letters.** -/
def toSmall (text : String) : String :=
  String.ofList (smallFrom [] text.toList)

/-! ### Capital letters -/

/-- The capital form of a character, where it is ASCII. -/
def capitalForm (c : Char) : List Char :=
  if c.toNat < 0x80 then [c.toUpper]
  else match c with
    | 'ß' => ['S', 'S']
    | 'ı' => ['I']
    | 'ſ' => ['S']
    | 'ﬀ' => ['F', 'F']
    | 'ﬁ' => ['F', 'I']
    | 'ﬂ' => ['F', 'L']
    | 'ﬃ' => ['F', 'F', 'I']
    | 'ﬄ' => ['F', 'F', 'L']
    | 'ﬅ' => ['S', 'T']
    | 'ﬆ' => ['S', 'T']
    | _ => [c]

/-- **A text in capital letters**, as far as these are ASCII. -/
def toCapital (cs : List Char) : List Char :=
  cs.flatMap capitalForm

end Text

end CallSite
