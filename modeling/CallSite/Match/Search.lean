import CallSite.Match.Matcher

/-!
# Searching for a match

The match of `CallSite.matchWithin` as it is carried out: one inference is shared by all ways that
are tried, each of them binds slots and counts steps in it, and a way that fails has to be taken
back before the next one is tried.

* `Search.speculate` – run an attempt and put the inference back where it fails.
* `searchParameter`, `searchElements`, `searchArguments`, `searchWider`, `searchNarrower` – the
  ways to match, each one on the inference that the ways before it left.
* `Store.search` – the search with a bound on its depth.
* `Store.matches` – what is known after a search that succeeds.
-/

namespace CallSite

/-- **A search**: it changes the inference that it is handed and says whether it succeeds. One that
is cut off at some depth says nothing. -/
abbrev Search := StateT Inference Option Bool

namespace Search

/-- Run an attempt, and put the inference back where it fails. -/
def speculate (attempt : Search) : Search := do
  let saved ← get
  if ← attempt then return true
  set saved
  return false

/-- Go on to a second search where the first one fails. -/
def orElse (first second : Search) : Search := do
  if ← first then return true
  second

/-- Count what a search took where it succeeds. -/
def counting (change : MatchCost → MatchCost) (search : Search) : Search := do
  let succeeded ← search
  if succeeded then modify (Inference.mapCost change)
  return succeeded

end Search

namespace Inference

/-- Bind a type to the slot of a parameter, unless the slot holds a type already. -/
def bind (i : Inference) (p : GenericParameter) (t : TypeId) : Binding × Inference :=
  match p.owner with
  | .type _ =>
    let (binding, slots) := i.typeSlots.bind p.position t
    (binding, { i with typeSlots := slots })
  | .method _ =>
    let (binding, slots) := i.methodSlots.bind p.position t
    (binding, { i with methodSlots := slots })

end Inference

/-- A way to search for a match of a source under a variance against a member. -/
abbrev Searcher :=
  TypeId → Variance → TypeId → Search

section Level

variable (s : Store) (recurse : Searcher)

/-! ### Parameters -/

/-- Search for one constraint: a type flows into an interface, and it or one of its bases is any
other type. -/
def searchConstraint (source constraint : TypeId) : Search :=
  if (s.info constraint).isInterface then recurse source .contravariant constraint
  else (s.ancestors source).anyM fun ancestor =>
    Search.speculate (recurse ancestor .invariant constraint)

/-- Search for all constraints, and put the cost back: checking them is no conversion. -/
def searchConstraints (source : TypeId) (constraints : List TypeId) : Search := do
  let saved := (← get).cost
  let satisfied ← constraints.allM (searchConstraint s recurse source)
  modify fun i => { i with cost := saved }
  return satisfied

/-- Bind a slot, and then check the constraints of its parameter. -/
def searchBinding (source : TypeId) (p : GenericParameter) : Search := do
  let (binding, i) := (← get).bind p source
  set i
  if binding ≠ .bound then return false
  searchConstraints s recurse source p.constraints

/-- **The member is a parameter.** -/
def searchParameter (source : TypeId) (variance : Variance) (member : TypeId)
    (p : GenericParameter) : Search := do
  let i ← get
  if i.owns p then
    match i.bound? p with
    | some bound =>
      if bound = source then return true
      (Search.speculate (recurse source variance bound)).orElse
        (Search.speculate (recurse source variance.inverse bound))
    | none =>
      if satisfiesFlags s source p.flags then
        (Search.speculate (searchBinding s recurse source p)).counting
          (MatchCost.addConstraints s p)
      else return false
  else return source = member

/-! ### Parts of the same kind -/

/-- Arrays of the same rank. -/
def searchElements (source member : TypeId) : Search :=
  match (s.info source).shape, (s.info member).shape with
  | .arrayType element rank, .arrayType element' rank' =>
    if rank = rank' then Search.speculate (recurse element .invariant element')
    else return false
  | _, _ => return false

/-- Types of the same definition. -/
def searchArguments (source member : TypeId) : Search :=
  match s.genericDefinition source, s.genericDefinition member with
  | some definition, some definition' =>
    let arguments := (s.info source).arguments
    let arguments' := (s.info member).arguments
    if definition = definition' ∧ arguments.length = arguments'.length then
      Search.speculate ((arguments.zip arguments').allM fun pair =>
        recurse pair.1 .invariant pair.2)
    else return false
  | _, _ => return false

/-! ### Steps up the hierarchy -/

/-- Try the interfaces of a type one by one, and count the step to the one that succeeds. -/
def searchInterfaces (t : TypeId) (attempt : TypeId → Search) : Search :=
  (s.allInterfaces t).anyM fun interface =>
    (Search.speculate (attempt interface)).counting (MatchCost.addInterfaceStep s interface)

/-- Go on with the base of a type, and count the step where that succeeds. -/
def searchBase (t : TypeId) (attempt : TypeId → Search) : Search :=
  match baseStep s t with
  | some base => (Search.speculate (attempt base)).counting (MatchCost.addBaseStep s base)
  | none => return false

/-- A nullable type takes the values of a type that is a value type and not nullable itself. -/
def searchNullable (nullable plain : TypeId) (attempt : TypeId → Search) : Search :=
  match s.nullableUnderlying nullable with
  | some underlying =>
    if (s.info plain).isValueType && (s.nullableUnderlying plain).isNone then
      Search.speculate (attempt underlying)
    else return false
  | none => return false

/-- **The source is more derived.** -/
def searchWider (source member : TypeId) : Search := do
  if (s.info member).isInterface then
    if ← searchInterfaces s source fun interface => recurse interface .invariant member then
      return true
  (searchNullable s member source fun underlying => recurse source .invariant underlying).orElse
    (searchBase s source fun base => recurse base .contravariant member)

/-- **The member is more derived.** -/
def searchNarrower (source member : TypeId) : Search := do
  if (s.info source).isInterface then
    if ← searchInterfaces s member fun interface => recurse source .invariant interface then
      return true
  (searchNullable s source member fun underlying => recurse underlying .invariant member).orElse
    (searchBase s member fun base => recurse source .covariant base)

/-- What a variance allows beyond parts of the same kind. -/
def searchVariance (source : TypeId) (variance : Variance) (member : TypeId) : Search :=
  match variance with
  | .invariant => return false
  | .contravariant => searchWider s recurse source member
  | .covariant => searchNarrower s recurse source member

/-! ### One level of a search -/

/-- **One level of a search**, given the searches of the level below. -/
def searchStep (source : TypeId) (variance : Variance) (member : TypeId) : Search :=
  match (s.info member).shape with
  | .parameter p => searchParameter s recurse source variance member p
  | .byRefType element =>
    if source = member then return true
    else match (s.info source).shape with
      | .byRefType element' => Search.speculate (recurse element' .invariant element)
      | _ => recurse source variance element
  | _ =>
    if source = member then return true
    else (searchElements s recurse source member).orElse
      ((searchArguments s recurse source member).orElse
        (searchVariance s recurse source variance member))

end Level

/-! ### Searches of bounded depth -/

/-- **The search** that is cut off `depth` levels down. -/
def Store.search (s : Store) : Nat → Searcher
  | 0, _, _, _ => fun _ => none
  | depth + 1, source, variance, member => searchStep s (s.search depth) source variance member

/-- **What is known after a search**, if it succeeds. -/
def Store.matches (s : Store) (depth : Nat) (source : TypeId) (variance : Variance)
    (member : TypeId) (i : Inference) : Option Inference :=
  match s.search depth source variance member i with
  | some (true, j) => some j
  | _ => none

/-- A depth that only an endless search exceeds. -/
def matchDepth : Nat := Nat.pow 2 48

end CallSite
