import CallSite.Call.Fit

/-!
# Filling a list of parameters

The fit of `CallSite.fitParameters` as it is carried out. The parameters are filled one after
another on one shared state: each of them counts in the weight, names its source and binds slots,
and the one that cannot be filled ends the run with whatever was counted and bound until then. So
the run works on a copy of what the caller has inferred, which is written back only when every
parameter is filled.

* `fillArgument`, `fillParameter` – fill one parameter on the state that the ones before it left.
* `fillParameters` – fill the whole list, on a copy of the slots of the caller.
-/

namespace CallSite

/-- **A run that fills parameters**: it changes what was counted and what was inferred, and one that
is cut off at some depth of a search says nothing. -/
abbrev Filling :=
  StateT (Fit × Inferred) Option

namespace Filling

/-- Change what was counted. -/
def weigh (change : Weight → Weight) : Filling Unit :=
  modify fun state => ({ state.1 with weight := change state.1.weight }, state.2)

/-- Name the source of the next parameter. -/
def name (source : Source) : Filling Unit :=
  modify fun state => ({ state.1 with sources := state.1.sources ++ [source] }, state.2)

/-! ### What a run does -/

theorem bind_apply {α β : Type} (x : Filling α) (next : α → Filling β) (state : Fit × Inferred) :
    (x >>= next) state = (x state).bind fun r => next r.1 r.2 := rfl

theorem pure_apply {α : Type} (result : α) (state : Fit × Inferred) :
    (pure result : Filling α) state = some (result, state) := rfl

theorem weigh_apply (change : Weight → Weight) (state : Fit × Inferred) :
    weigh change state =
      some ((), ({ state.1 with weight := change state.1.weight }, state.2)) := rfl

theorem name_apply (source : Source) (state : Fit × Inferred) :
    name source state =
      some ((), ({ state.1 with sources := state.1.sources ++ [source] }, state.2)) := rfl

end Filling

section Fill

variable (s : Store) (depth : Nat)

/-- Search for a match of a type against a parameter, on the slots as they were left. The cost of
the search is counted from zero and handed on. -/
def fillSlots (p : Parameter) (t : TypeId) : Filling (Bool × MatchCost) := fun state =>
  (s.search depth t (argumentVariance s p) p.type state.2.start).map fun (succeeded, i) =>
    ((succeeded, i.cost), (state.1, i.inferred))

/-- **Fill a parameter with an argument.** -/
def fillArgument (p : Parameter) (a : Argument) : Filling Bool :=
  match a.type with
  | none => do
    if s.isNullAssignable p.type then
      Filling.weigh (countOpen s p)
      return true
    else return false
  | some t => do
    let (succeeded, cost) ← fillSlots s depth p t
    if succeeded then
      Filling.weigh fun w => w.absorb cost
      Filling.weigh (countIdentical s t p)
      Filling.weigh (countOpen s p)
      return true
    else return false

/-- **Fill the parameter at an index** with what the call supplies, or else with its default. -/
def fillParameter (names : NameComparison) (arguments : Arguments) (entry : Parameter × Nat) :
    Filling Bool := do
  Filling.weigh fun w => { w with total := w.total + 1 }
  match supplied? names arguments entry.2 entry.1 with
  | some (a, source) =>
    if ← fillArgument s depth entry.1 a then
      Filling.weigh fun w => { w with specified := w.specified + 1 }
      Filling.name source
      return true
    else return false
  | none =>
    if entry.1.isOptional then
      Filling.weigh fun w => { w with required := w.required + 1 }
      Filling.name .default
      return true
    else return false

/-- **Fill a list of parameters** from a call. What is inferred on the way is inferred on a copy,
and the caller sees it only if every parameter is filled. -/
def fillParameters (names : NameComparison) (parameters : List Parameter) (arguments : Arguments) :
    StateT Inferred Option (Option Fit) := do
  if parameters.length < arguments.positional.length then return none
  if namesFit names parameters arguments.positional.length [] (arguments.named.map Prod.fst) then
    let copy ← get
    let (succeeded, fit, inferred) ←
      (parameters.zipIdx.allM (fillParameter s depth names arguments)) ({}, copy)
    if succeeded then
      set inferred
      return some fit
    else return none
  else return none

end Fill

end CallSite
