import CallSite.Call.Fit
import CallSite.Member.Basic

/-!
# Choosing among accepted candidates

Accepted candidates are ranked by weight, and those of equal weight by their distance from the
queried type. The first wins if its weight ranks before that of the next, or, where the mask asks
for it, if it is nearer; otherwise the call is ambiguous.

* `Accepted.rank` – the order.
* `select` – the outcome: nobody, a winner, or a tie with the number of candidates that share it.
-/

namespace CallSite

/-- A candidate that accepts the call. -/
structure Accepted where
  /-- The member. -/
  member : Member
  /-- Its distance from the queried type. -/
  depth : Nat
  /-- How the call fits it. -/
  fit : Fit
  /-- The types that were inferred. -/
  inferred : Inferred
deriving DecidableEq, Repr

namespace Accepted

/-- Compare two candidates by their weights. -/
def compareWeight (a b : Accepted) : Ordering :=
  Weight.compare a.fit.weight b.fit.weight

/-- Compare two candidates by their weights, then by their distances. -/
def compare (a b : Accepted) : Ordering :=
  (compareWeight a b).then (Ord.compare a.depth b.depth)

/-- **Rank candidates**, the first choice first. Those that compare as equal stay in their order. -/
def rank (accepted : List Accepted) : List Accepted :=
  accepted.mergeSort fun a b => (compare a b).isLE

end Accepted

/-- What comes of choosing. -/
inductive Selection
  /-- There is nobody to choose. -/
  | nobody
  /-- One candidate wins. -/
  | winner (accepted : Accepted)
  /-- Candidates rank first together. -/
  | tie (count : Nat)
deriving DecidableEq, Repr

/-- Choose among ranked candidates. -/
def selectRanked (access : Access) : List Accepted → Selection
  | [] => .nobody
  | [best] => .winner best
  | best :: next :: rest =>
    if best.compareWeight next = .lt then .winner best
    else if access.contains Access.topHierarchy && best.depth ≠ next.depth then .winner best
    else .tie ((best :: next :: rest).takeWhile fun a => best.compareWeight a == .eq).length

/-- **Choose among accepted candidates.** -/
def select (access : Access) (accepted : List Accepted) : Selection :=
  selectRanked access (Accepted.rank accepted)

end CallSite
