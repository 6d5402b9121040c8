import CallSite.Member.Basic

/-!
# The registry of members

A **registry** holds the members that types declare, in the order in which they were declared. The
number of a member is its place in that order, counted from one. Members of a constructed type are
not registered: they are made from those of the definition.

* `Registry.declare` – register a member and give it its number.
* `Registry.get?`, `Registry.declared`, `Registry.types` – find members again.
-/

namespace CallSite

/-- **The members that types declare.** -/
structure Registry where
  /-- The members in the order of their declaration. -/
  members : Array Member := #[]
deriving Repr

namespace Registry

/-- The number of members. -/
def size (registry : Registry) : Nat :=
  registry.members.size

/-- Register a member. It is given the next number. -/
def declare (registry : Registry) (member : Member) : Nat × Registry :=
  let id := registry.size + 1
  (id, { members := registry.members.push { member with id := id } })

/-- The member with a number. -/
def get? (registry : Registry) (id : Nat) : Option Member :=
  if id = 0 then none else registry.members[id - 1]?

/-- **The members of a kind that a type declares**, in the order of their declaration. -/
def declared (registry : Registry) (t : TypeId) (kind : MemberKind) : List Member :=
  registry.members.toList.filter fun m => m.declaringType = t && m.kind = kind

/-- The types that declare a member, in the order in which they were made. -/
def types (registry : Registry) : List TypeId :=
  ((registry.members.toList.map fun m => m.declaringType.index).eraseDups.mergeSort (· ≤ ·)).map
    TypeId.mk

/-- The member with the number that a declaration gives is the member that was declared. -/
theorem get?_declare (registry : Registry) (member : Member) :
    (registry.declare member).2.get? (registry.declare member).1 =
      some { member with id := registry.size + 1 } := by
  simp [declare, get?, size]

end Registry

end CallSite
