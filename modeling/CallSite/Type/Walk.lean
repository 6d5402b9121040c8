import CallSite.Type.Hierarchy

/-!
# Walking up a hierarchy

The lists of `Store.ancestors` and `Store.allInterfaces` as they are made: by loops that know of no
bound. The one goes from base to base. The other takes types from a stack, and puts the interfaces
that a type declares in its place if the type was not found before.

* `Store.followBases` – go from base to base until there is none.
* `Store.emptyStack` – take types from a stack until it is empty.
* `Store.gatherInterfaces` – empty the stack for each of the ancestors in turn.

How many turns a loop may take is handed to it, and one that needs more says nothing. On a cycle of
bases no number of turns is enough for the first loop, which remembers nothing.
-/

namespace CallSite

namespace Store

/-- **Go from base to base**, behind the types that were met. -/
def followBases (s : Store) : Nat → List TypeId → Option TypeId → Option (List TypeId)
  | _, met, none => some met
  | 0, _, some _ => none
  | turns + 1, met, some base => s.followBases turns (met ++ [base]) (s.info base).base

/-- **Take types from a stack.** One that was not found before is appended to what was found, and
its own interfaces take its place on the stack. -/
def emptyStack (s : Store) : Nat → List TypeId → List TypeId → Option (List TypeId)
  | _, found, [] => some found
  | 0, _, _ :: _ => none
  | turns + 1, found, t :: stack =>
    if t ∈ found then s.emptyStack turns found stack
    else s.emptyStack turns (found ++ [t]) ((s.info t).interfaces ++ stack)

/-- **Every interface of a type**, found on a stack that is emptied for each of its ancestors. -/
def gatherInterfaces (s : Store) (turns : Nat) (t : TypeId) : Option (List TypeId) := do
  let chain ← s.followBases turns [t] (s.info t).base
  chain.foldlM (fun found a => s.emptyStack turns found (s.info a).interfaces) []

end Store

end CallSite
