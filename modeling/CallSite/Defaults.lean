import CallSite.Type.Initial
import CallSite.Value

/-!
# Default values of a process

A **process** may work with the types of several stores at once. Each of them is a **context** with
a number of its own. What a place of a type holds before anything is stored there is computed once
for each type of each context and then kept for the whole process.

* `Process.create`, `Process.update` – make a context, change the types of one.
* `Process.compute?` – compute a default value from the types as they are.
* `Process.defaultValue?` – the value that was kept, or else the one that is computed now and kept.
-/

namespace CallSite

/-- The number of a context. No two contexts of a process have the same. -/
structure ContextId where
  /-- The number. -/
  number : Nat
deriving DecidableEq, Repr

/-- **What a process knows**: its contexts, and the default values that were computed so far. -/
structure Process where
  /-- The types of each context, in the order in which the contexts were made. -/
  contexts : List Store := []
  /-- The values that were kept, by the context and the type. -/
  defaults : List ((ContextId × TypeId) × Value) := []

namespace Process

/-- The types of a context, if it was made. -/
def context? (process : Process) (c : ContextId) : Option Store :=
  process.contexts[c.number]?

/-- Make a context. It begins with the types that every program begins with. -/
def create (process : Process) : ContextId × Process :=
  (⟨process.contexts.length⟩, { process with contexts := process.contexts ++ [Store.initial] })

/-- Put other types in the place of those of a context. The values that were kept stay. -/
def update (process : Process) (c : ContextId) (s : Store) : Process :=
  { process with contexts := process.contexts.set c.number s }

/-- **Compute a default value**, if the context holds the type. -/
def compute? (process : Process) (c : ContextId) (t : TypeId) : Option Value := do
  let s ← process.context? c
  let _ ← s.info? t
  return s.defaultValue t

/-- **The default value of a type**: what was kept for it, or else what is computed, which is kept
from then on. -/
def defaultValue? (process : Process) (c : ContextId) (t : TypeId) : Option (Value × Process) :=
  match process.defaults.lookup (c, t) with
  | some value => some (value, process)
  | none =>
    (process.compute? c t).map fun value =>
      (value, { process with defaults := ((c, t), value) :: process.defaults })

end Process

end CallSite
