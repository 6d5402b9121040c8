import CallSite.Type.Store

/-!
# The hierarchy above a type

* `Store.ancestors` – the type followed by its base, the base of its base, and so on.
* `Store.allInterfaces` – every interface that the type has through itself, its bases and the
  interfaces of these, each once, in the order of a walk that goes to the interfaces of an
  interface before it goes to the next one.

The walk to interfaces remembers the types that it has met and goes to none of them twice. The walk
from base to base remembers nothing, and on a cycle of bases it never returns; here the chain is cut
where it would come back to a type. So neither list is longer than the store is large, and both
functions recurse on this bound. The loops themselves, which know of no bound, are in
`CallSite.Type.Walk`. Where the loop over bases returns, it returns the ancestors
(`Store.exists_followBases_iff`).
-/

namespace CallSite

namespace Store

/-- The first `steps` bases above a type, after the type itself. The chain is cut below a type that
was met before, where the walk over a cycle of bases would go on for ever. -/
def ancestorsWithin (s : Store) : Nat → List TypeId → TypeId → List TypeId
  | 0, _, t => [t]
  | steps + 1, met, t =>
    t :: match (s.info t).base with
      | none => []
      | some base => if base ∈ t :: met then [] else s.ancestorsWithin steps (t :: met) base

/-- **The type and its bases**, the nearest first. -/
def ancestors (s : Store) (t : TypeId) : List TypeId :=
  s.ancestorsWithin s.size [] t

/-- Walk to an interface: when it was not found before it is appended to what was found, and the
walk goes on to its own interfaces. -/
def visitInterface (s : Store) : Nat → List TypeId → TypeId → List TypeId
  | 0, found, _ => found
  | depth + 1, found, t =>
    if t ∈ found then found
    else (s.info t).interfaces.foldl (s.visitInterface depth) (found ++ [t])

/-- Walk to each interface that a type declares itself. -/
def visitInterfaces (s : Store) (found : List TypeId) (t : TypeId) : List TypeId :=
  (s.info t).interfaces.foldl (s.visitInterface s.size) found

/-- **Every interface of a type**, of its bases, and of these interfaces. -/
def allInterfaces (s : Store) (t : TypeId) : List TypeId :=
  (s.ancestors t).foldl s.visitInterfaces []

end Store

end CallSite
