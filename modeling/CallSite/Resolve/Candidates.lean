import CallSite.Member.Registry
import CallSite.Member.Substitute
import CallSite.Resolve.Query
import CallSite.Type.Hierarchy

/-!
# Candidates

The members that a query may mean: those of its kind and name which the queried type and its bases
declare, and which the mask lets through.

* `declaredMembers` – what one type declares; the members of a constructed type are those of its
  definition under the substitution of its arguments.
* `isCandidate` – a member passes, at some distance from the queried type.
* `candidates` – all that pass, the nearest first.
-/

namespace CallSite

/-- **The members of a kind that a type declares.** -/
def declaredMembers (registry : Registry) (t : TypeId) (kind : MemberKind) :
    TypeM (List Member) := do
  let info := (← get).info t
  match info.definition with
  | none => return registry.declared t kind
  | some definition =>
    let σ := Substitution.forType definition info.arguments
    (registry.declared definition kind).mapM fun m => m.substitute σ

/-- **A member passes.** On a base it is not private, and it is not static unless the mask also asks
for the static members of bases. -/
def isCandidate (access : Access) (name : String) (depth : Nat) (m : Member) : Bool :=
  (depth = 0 || (m.visibility ≠ .owner && (!m.isStatic || access.contains Access.flattenHierarchy)))
    && access.nameMatches m.name name && access.admits m.visibility m.isStatic

/-- The types whose members are looked at. Constructors are not inherited. -/
def searchedTypes (s : Store) (access : Access) (kind : MemberKind) (t : TypeId) : List TypeId :=
  if access.contains Access.declaredOnly || kind = .constructor then [t] else s.ancestors t

/-- **The members that a query may mean**, each with its distance from the queried type. -/
def candidates (registry : Registry) (access : Access) (query : Query) (t : TypeId) :
    TypeM (List (Member × Nat)) := do
  let found ← (searchedTypes (← get) access query.kind t).zipIdx.mapM fun (declaring, depth) => do
    let members ← declaredMembers registry declaring query.kind
    return (members.filter (isCandidate access query.name depth)).map fun m => (m, depth)
  return found.flatten

end CallSite
