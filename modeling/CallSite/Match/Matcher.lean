import CallSite.Match.Attempt
import CallSite.Match.Cost
import CallSite.Match.Slots
import CallSite.Match.Variance
import CallSite.Type.Hierarchy
import CallSite.Type.Query

/-!
# Matching a source against a member

A **match** decides whether a value of a `source` type may flow into a place of a `member` type
under a variance. The member may mention generic parameters; those that have a slot in the
`Inference` stand for types to be found, and a match binds them to the parts of the source that
they meet.

* `matchParameter` – the member is a parameter: bind its slot, or compare with what is bound.
* `matchElements`, `matchArguments` – both sides have parts of the same kind.
* `widen`, `narrow` – one side is replaced by something above it, under contravariance the source
  and under covariance the member.
* `matchStep` – one level of a match, given the matches of the level below.
* `matchWithin` – the match with a bound on its depth.

Here a match is a function of the inference it begins with: each way is tried from that inference,
and only an accepted way hands its bindings and its cost on. The search of `CallSite.Store.search`
changes one inference in place and takes back what a failed way did to it; that it finds what is
defined here is `CallSite.search_eq_report`.
-/

namespace CallSite

/-- **What a match knows so far**: the types bound to the parameters of the queried type and of the
candidate method, and what was counted. -/
structure Inference where
  /-- The slots for parameters of the queried type. -/
  typeSlots : Slots := Slots.empty
  /-- The slots for parameters of the candidate method. -/
  methodSlots : Slots := Slots.empty
  /-- What was counted. -/
  cost : MatchCost := {}
deriving DecidableEq, Repr

namespace Inference

/-- The parameter has a slot: one of a type among the slots for types, one of a method among the
slots for methods. -/
def owns (i : Inference) (p : GenericParameter) : Bool :=
  match p.owner with
  | .type _ => i.typeSlots.owns p
  | .method _ => i.methodSlots.owns p

/-- What is bound to a parameter. -/
def bound? (i : Inference) (p : GenericParameter) : Option TypeId :=
  match p.owner with
  | .type _ => i.typeSlots.get? p.position
  | .method _ => i.methodSlots.get? p.position

/-- Bind a type to a parameter. -/
def put (i : Inference) (p : GenericParameter) (t : TypeId) : Inference :=
  match p.owner with
  | .type _ => { i with typeSlots := i.typeSlots.put p.position t }
  | .method _ => { i with methodSlots := i.methodSlots.put p.position t }

/-- Change what was counted. -/
def mapCost (change : MatchCost → MatchCost) (i : Inference) : Inference :=
  { i with cost := change i.cost }

/-! ### What is known after a binding -/

@[simp]
theorem cost_put (i : Inference) (p : GenericParameter) (t : TypeId) :
    (i.put p t).cost = i.cost := by
  unfold put
  split <;> rfl

@[simp]
theorem owns_put (i : Inference) (p q : GenericParameter) (t : TypeId) :
    (i.put p t).owns q = i.owns q := by
  unfold put owns
  cases p.owner <;> cases q.owner <;> simp only [Slots.owns_put]

/-- What is put into a slot is bound to its parameter. -/
theorem bound?_put_self {i : Inference} {p : GenericParameter} (t : TypeId) (h : i.owns p) :
    (i.put p t).bound? p = some t := by
  unfold put bound?
  cases hp : p.owner <;> simp only [owns, hp, Slots.owns, Bool.and_eq_true, decide_eq_true_eq] at h
  · exact Slots.get?_put_self t h.2
  · exact Slots.get?_put_self t h.2

/-- What is put into an empty slot leaves what is bound already. -/
theorem bound?_put_of_some {i : Inference} {p q : GenericParameter} (t : TypeId) {b : TypeId}
    (h : i.bound? p = none) (hq : i.bound? q = some b) : (i.put p t).bound? q = some b := by
  unfold put bound? at *
  cases hp : p.owner <;> cases hq' : q.owner <;> simp only [hp, hq'] at h hq ⊢
  case type.method | method.type => exact hq
  all_goals
    rw [Slots.get?_put_of_ne _ t fun he => ?_]
    · exact hq
    · rw [he, hq] at h
      cases h

/-- What is bound after a binding was bound before, or is what was put into that slot. -/
theorem bound?_of_put {i : Inference} {p q : GenericParameter} {t b : TypeId}
    (hp : i.owns p) (hq : i.owns q) (h : (i.put p t).bound? q = some b) :
    i.bound? q = some b ∨ (b = t ∧ q.owner = p.owner ∧ q.position = p.position) := by
  by_cases hsame : q.owner = p.owner ∧ q.position = p.position
  · right
    refine ⟨?_, hsame⟩
    have hself := bound?_put_self t hp
    simp only [bound?, hsame.1, hsame.2] at h hself
    rw [h] at hself
    exact Option.some.inj hself
  · left
    unfold put bound? at *
    unfold owns Slots.owns at hp hq
    cases hpo : p.owner <;> cases hqo : q.owner <;>
      simp only [hpo, hqo, Bool.and_eq_true, decide_eq_true_eq] at hp hq h ⊢
    case type.method | method.type => exact h
    all_goals
      rw [Slots.get?_put_of_ne] at h
      · exact h
      · intro he
        refine hsame ⟨?_, he.symm⟩
        rw [hpo, hqo]
        exact Option.some.inj (hq.1.symm.trans hp.1)

end Inference

/-- A way to match a source under a variance against a member. -/
abbrev Matcher :=
  TypeId → Variance → TypeId → Inference → Attempt Inference

section Level

variable (s : Store) (recurse : Matcher)

/-! ### Parameters -/

/-- A type has what the special constraints of a parameter ask for. -/
def satisfiesFlags (source : TypeId) (flags : Flags) : Bool :=
  let info := s.info source
  (!flags.contains Flags.reference || info.isReferenceType) &&
  (!flags.contains Flags.nonNullableValue ||
    (info.isValueType && (s.nullableUnderlying source).isNone)) &&
  (!flags.contains Flags.defaultConstructor ||
    (info.isValueType || info.hasDefaultConstructor))

/-- A type has a constraint: it flows into an interface, and it or one of its bases is any other
type. -/
def matchConstraint (source constraint : TypeId) (i : Inference) : Attempt Inference :=
  if (s.info constraint).isInterface then recurse source .contravariant constraint i
  else Attempt.any (fun ancestor => recurse ancestor .invariant constraint) (s.ancestors source) i

/-- A type has all constraints. Checking them is no conversion, so the cost stays as it was. -/
def matchConstraints (source : TypeId) (constraints : List TypeId) (i : Inference) :
    Attempt Inference :=
  (Attempt.all (matchConstraint s recurse source) constraints i).map fun j =>
    { j with cost := i.cost }

/-- **The member is a parameter.** One without a slot matches itself alone. What is bound must be
the source, or match it in one of the two directions. An empty slot is bound *before* the
constraints are checked, so that a constraint that mentions the parameter sees the source. -/
def matchParameter (source : TypeId) (variance : Variance) (member : TypeId)
    (p : GenericParameter) (i : Inference) : Attempt Inference :=
  if i.owns p then
    match i.bound? p with
    | some bound =>
      if bound = source then .accepted i
      else (recurse source variance bound i).orElse fun _ =>
        recurse source variance.inverse bound i
    | none =>
      if satisfiesFlags s source p.flags then
        (matchConstraints s recurse source p.constraints (i.put p source)).map
          (Inference.mapCost (MatchCost.addConstraints s p))
      else .refused
  else .guard (source = member) i

/-! ### Parts of the same kind -/

/-- Arrays of the same rank match when their elements are the same. -/
def matchElements (source member : TypeId) (i : Inference) : Attempt Inference :=
  match (s.info source).shape, (s.info member).shape with
  | .arrayType element rank, .arrayType element' rank' =>
    if rank = rank' then recurse element .invariant element' i else .refused
  | _, _ => .refused

/-- Types of the same definition match when their arguments are the same, one by one. -/
def matchArguments (source member : TypeId) (i : Inference) : Attempt Inference :=
  match s.genericDefinition source, s.genericDefinition member with
  | some definition, some definition' =>
    let arguments := (s.info source).arguments
    let arguments' := (s.info member).arguments
    if definition = definition' ∧ arguments.length = arguments'.length then
      Attempt.all (fun pair => recurse pair.1 .invariant pair.2) (arguments.zip arguments') i
    else .refused
  | _, _ => .refused

/-! ### Steps up the hierarchy -/

/-- The step from a type to its base. An interface without a base steps to the root. -/
def baseStep (t : TypeId) : Option TypeId :=
  match (s.info t).base with
  | some base => some base
  | none => if (s.info t).isInterface then some Core.object else none

/-- An interface of the source is the member. -/
def widenToInterface (source member : TypeId) (i : Inference) : Attempt Inference :=
  if (s.info member).isInterface then
    Attempt.any (fun interface i => (recurse interface .invariant member i).map
      (Inference.mapCost (MatchCost.addInterfaceStep s interface))) (s.allInterfaces source) i
  else .refused

/-- The member takes the values of the source and null. -/
def widenToNullable (source member : TypeId) (i : Inference) : Attempt Inference :=
  match s.nullableUnderlying member with
  | some underlying =>
    if (s.info source).isValueType && (s.nullableUnderlying source).isNone then
      recurse source .invariant underlying i
    else .refused
  | none => .refused

/-- The base of the source flows into the member. -/
def widenToBase (source member : TypeId) (i : Inference) : Attempt Inference :=
  match baseStep s source with
  | some base => (recurse base .contravariant member i).map
      (Inference.mapCost (MatchCost.addBaseStep s base))
  | none => .refused

/-- **The source is more derived**: one of its interfaces, its nullable type, or its base takes its
place. -/
def widen (source member : TypeId) (i : Inference) : Attempt Inference :=
  (widenToInterface s recurse source member i).orElse fun _ =>
  (widenToNullable s recurse source member i).orElse fun _ =>
  widenToBase s recurse source member i

/-- An interface of the member is the source. -/
def narrowFromInterface (source member : TypeId) (i : Inference) : Attempt Inference :=
  if (s.info source).isInterface then
    Attempt.any (fun interface i => (recurse source .invariant interface i).map
      (Inference.mapCost (MatchCost.addInterfaceStep s interface))) (s.allInterfaces member) i
  else .refused

/-- The source takes the values of the member and null. -/
def narrowFromNullable (source member : TypeId) (i : Inference) : Attempt Inference :=
  match s.nullableUnderlying source with
  | some underlying =>
    if (s.info member).isValueType && (s.nullableUnderlying member).isNone then
      recurse underlying .invariant member i
    else .refused
  | none => .refused

/-- The base of the member flows into the source. -/
def narrowFromBase (source member : TypeId) (i : Inference) : Attempt Inference :=
  match baseStep s member with
  | some base => (recurse source .covariant base i).map
      (Inference.mapCost (MatchCost.addBaseStep s base))
  | none => .refused

/-- **The member is more derived**: one of its interfaces, its nullable type, or its base takes its
place. -/
def narrow (source member : TypeId) (i : Inference) : Attempt Inference :=
  (narrowFromInterface s recurse source member i).orElse fun _ =>
  (narrowFromNullable s recurse source member i).orElse fun _ =>
  narrowFromBase s recurse source member i

/-- What a variance allows beyond parts of the same kind. -/
def matchVariance (source : TypeId) (variance : Variance) (member : TypeId) (i : Inference) :
    Attempt Inference :=
  match variance with
  | .invariant => .refused
  | .contravariant => widen s recurse source member i
  | .covariant => narrow s recurse source member i

/-! ### One level of a match -/

/-- **One level of a match.** References match when what they refer to is the same; where a
reference is expected, a plain value may also be passed. -/
def matchStep (source : TypeId) (variance : Variance) (member : TypeId) (i : Inference) :
    Attempt Inference :=
  match (s.info member).shape with
  | .parameter p => matchParameter s recurse source variance member p i
  | .byRefType element =>
    if source = member then .accepted i
    else match (s.info source).shape with
      | .byRefType element' => recurse element' .invariant element i
      | _ => recurse source variance element i
  | _ =>
    if source = member then .accepted i
    else (matchElements s recurse source member i).orElse fun _ =>
      (matchArguments s recurse source member i).orElse fun _ =>
      matchVariance s recurse source variance member i

end Level

/-! ### Matches of bounded depth -/

/-- The match that is cut off `depth` levels down. -/
def matchWithin (s : Store) : Nat → Matcher
  | 0, _, _, _, _ => .unfinished
  | depth + 1, source, variance, member, i =>
    matchStep s (matchWithin s depth) source variance member i

end CallSite
