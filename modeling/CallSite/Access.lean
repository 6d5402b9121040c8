import CallSite.Text.Blank
import CallSite.Text.LetterCase
import CallSite.Text.Numeral

/-!
# Access masks

A query says which members it may see by a **mask**, a set of flags: members of which visibility,
static or not, from which types of the hierarchy, and how names are compared.

* `Access.admits`, `Access.nameMatches` – what a mask lets through.
* `Access.ofName?`, `Access.ofText?` – read a flag, read a mask: names or numbers with bars between
  them.
* `Access.text` – write a mask as the names of its flags.
-/

namespace CallSite

/-- How widely a member can be seen. -/
inductive Visibility
  /-- Everywhere: a public member. -/
  | everywhere
  /-- In the types that derive from its own: a protected member. -/
  | derived
  /-- In the program part that declares it: an internal member. -/
  | component
  /-- In its own type: a private member. -/
  | owner
deriving DecidableEq, Repr

/-- **A mask**: which members a query may see. -/
structure Access where
  /-- The flags, as bits. -/
  bits : UInt16
deriving DecidableEq, Repr

namespace Access

/-! ### Flags -/

/-- Nothing is seen. -/
def nothing : Access := ⟨0⟩

/-- Public members. -/
def publicMembers : Access := ⟨0x01⟩

/-- Members that are not public. -/
def nonPublicMembers : Access := ⟨0x02⟩

/-- Members of an instance. -/
def instanceMembers : Access := ⟨0x04⟩

/-- Static members. -/
def staticMembers : Access := ⟨0x08⟩

/-- Names are compared without regard to letter case. -/
def ignoreCase : Access := ⟨0x10⟩

/-- Only members that the queried type declares itself. -/
def declaredOnly : Access := ⟨0x20⟩

/-- Also static members of the bases. -/
def flattenHierarchy : Access := ⟨0x40⟩

/-- Of members that rank equally, the one nearest to the queried type. -/
def topHierarchy : Access := ⟨0x80⟩

/-- Public members of both scopes. -/
def usual : Access := ⟨0x0D⟩

/-- Members of every visibility and both scopes. -/
def allMembers : Access := ⟨0x0F⟩

/-! ### Sets of flags -/

/-- All flags of `other` are set. -/
def contains (mask other : Access) : Bool :=
  mask.bits &&& other.bits == other.bits

/-- The flags that are set in either. -/
def union (mask other : Access) : Access :=
  ⟨mask.bits ||| other.bits⟩

/-- The flags that are set here and not in `other`. -/
def difference (mask other : Access) : Access :=
  ⟨mask.bits &&& ~~~other.bits⟩

/-- The flags of `other`, where a condition holds, and those of the mask. -/
def unionIf (mask : Access) (condition : Bool) (other : Access) : Access :=
  if condition then mask.union other else mask

/-- A mask has all of its own flags. -/
@[simp]
theorem contains_self (mask : Access) : mask.contains mask := by
  simp [contains]

/-! ### What a mask lets through -/

/-- **A member passes** when the mask allows its visibility and its scope. -/
def admits (mask : Access) (visibility : Visibility) (isStatic : Bool) : Bool :=
  mask.contains (if visibility = .everywhere then publicMembers else nonPublicMembers) &&
  mask.contains (if isStatic then staticMembers else instanceMembers)

/-- The name of a member is the one that is looked for. -/
def nameMatches (mask : Access) (member queried : String) : Bool :=
  if mask.contains ignoreCase then Text.toSmall member == Text.toSmall queried
  else member == queried

/-! ### Text -/

/-- The flags that a mask is written with, in the order in which they are written. -/
def flagNames : List (Access × String) :=
  [(publicMembers, "PUBLIC"),
   (nonPublicMembers, "NON_PUBLIC"),
   (instanceMembers, "INSTANCE"),
   (staticMembers, "STATIC"),
   (ignoreCase, "IGNORE_CASE"),
   (declaredOnly, "DECLARED_ONLY"),
   (flattenHierarchy, "FLATTEN_HIERARCHY"),
   (topHierarchy, "TOP_HIERARCHY")]

/-- The names that are read besides those of single flags. -/
def setNames : List (Access × String) :=
  [(nothing, "NONE"), (usual, "DEFAULT"), (allMembers, "ALL_MEMBERS")]

/-- The mask of a number in a text: hexadecimal behind `0x`, else decimal. -/
def ofNumber? (cs : List Char) : Option Access :=
  match cs with
  | '0' :: 'x' :: digits => (Text.readWord 16 digits).map Access.mk
  | _ => (Text.readWord 10 cs).map Access.mk

/-- **Read a flag**: its name in letters of either case, or a number. -/
def ofName? (cs : List Char) : Option Access :=
  let capital := String.ofList (Text.toCapital cs)
  match (flagNames ++ setNames).find? fun entry => entry.2 == capital with
  | some (mask, _) => some mask
  | none => ofNumber? cs

/-- **Read a mask**: flags with bars between them and blanks around them. -/
def ofText? (text : String) : Option Access :=
  (Text.splitAt '|' text.toList).foldlM
    (fun mask part => (ofName? (Text.trim part)).map mask.union) nothing

/-- **Write a mask**: the names of its flags with bars between them. -/
def text (mask : Access) : String :=
  if mask.bits = 0 then "NONE"
  else "|".intercalate ((flagNames.filter fun entry => mask.contains entry.1).map Prod.snd)

/-- Read a mask, or say what cannot be read. -/
def parse (text : String) : Except String Access :=
  match ofText? text with
  | some mask => .ok mask
  | none => .error ("invalid accessibility flags: " ++ text)

end Access

end CallSite
