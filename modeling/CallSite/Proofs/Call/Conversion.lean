import CallSite.Proofs.Call.Ranking
import Mathlib.Algebra.GroupWithZero.Nat
import Mathlib.Algebra.Order.Group.Nat
import Mathlib.Algebra.Order.Monoid.Prod

/-!
# What conversions weigh

Of the counters of a weight the first four are about conversions, and they are compared
lexicographically. Numbers under this order are added as single numbers are: what is no more for
each argument is no more for the whole call. So overloads that differ in nothing else rank as the
sums of their conversions do (`Weight.compare_of_sameRest`).

* `Conversions` – the four counters, with their order.
* `Weight.SameRest` – two weights differ in conversions only.
* `Weight.supply` – one more argument was converted.
-/

namespace CallSite

/-- **What conversions count**, in the order in which it is compared: steps to bases, to generic
bases, to interfaces and to generic interfaces. -/
abbrev Conversions :=
  Nat ×ₗ Nat ×ₗ Nat ×ₗ Nat

/-- What a match counts of conversions. -/
def MatchCost.conversions (c : MatchCost) : Conversions :=
  toLex (c.totalTypes, toLex (c.genericTypes, toLex (c.totalInterfaces, c.genericInterfaces)))

/-- More steps to bases weigh more than anything else. -/
theorem MatchCost.conversions_lt_of_totalTypes {a b : MatchCost} (h : a.totalTypes < b.totalTypes) :
    a.conversions < b.conversions :=
  Prod.Lex.toLex_lt_toLex.mpr (.inl h)

namespace Weight

/-- What a weight counts of conversions. -/
def conversions (w : Weight) : Conversions :=
  toLex (w.totalTypes, toLex (w.genericTypes, toLex (w.totalInterfaces, w.genericInterfaces)))

/-- **Two weights differ in conversions only**, and in what is not compared. -/
structure SameRest (a b : Weight) : Prop where
  /-- As many generic parameters were bound. -/
  genericArguments : a.genericArguments = b.genericArguments
  /-- As many parameters are left to their default. -/
  required : a.required = b.required
  /-- As many parameters are supplied. -/
  specified : a.specified = b.specified
  /-- As many flags and class constraints were met. -/
  typeConstraints : a.typeConstraints = b.typeConstraints
  /-- As many interface constraints were met. -/
  interfaceConstraints : a.interfaceConstraints = b.interfaceConstraints
  /-- As many constructor constraints were met. -/
  constructorConstraints : a.constructorConstraints = b.constructorConstraints
  /-- There are as many parameters. -/
  total : a.total = b.total

theorem SameRest.refl (a : Weight) : a.SameRest a :=
  ⟨rfl, rfl, rfl, rfl, rfl, rfl, rfl⟩

/-- **Where nothing else differs, weights compare as their conversions do.** -/
theorem compare_of_sameRest {a b : Weight} (h : a.SameRest b) :
    compare a b = Ord.compare a.conversions b.conversions := by
  simp [compare, ranking, compareBy, get, h.genericArguments, h.required, h.specified,
    h.typeConstraints, h.interfaceConstraints, h.constructorConstraints, h.total,
    Prod.Lex.compare_def, compareLex, compareOn, conversions]

/-- What is added to both weights leaves them alike. -/
theorem SameRest.absorb {a b : Weight} (h : a.SameRest b) (cost : MatchCost) :
    (a.absorb cost).SameRest (b.absorb cost) := by
  constructor <;> simp [Weight.absorb, h.genericArguments, h.required, h.specified,
    h.typeConstraints, h.interfaceConstraints, h.constructorConstraints, h.total]

/-- One more parameter is supplied by an argument whose conversion has a cost. -/
def supply (w : Weight) (cost : MatchCost) : Weight :=
  { w.absorb cost with total := w.total + 1, specified := w.specified + 1 }

/-- **The conversions of a call are added up.** -/
theorem conversions_foldl_supply (costs : List MatchCost) (w : Weight) :
    (costs.foldl supply w).conversions =
      w.conversions + (costs.map MatchCost.conversions).sum := by
  induction costs generalizing w with
  | nil => exact (add_zero _).symm
  | cons c costs ih =>
    rw [List.foldl_cons, ih, List.map_cons, List.sum_cons, ← add_assoc]
    rfl

/-- Conversions that meet no constraints leave the rest alone, but for the number of parameters. -/
theorem sameRest_foldl_supply {costs costs' : List MatchCost} (hlen : costs.length = costs'.length)
    (hfree : ∀ c ∈ costs ++ costs', c.typeConstraints = 0 ∧ c.interfaceConstraints = 0 ∧
      c.constructorConstraints = 0) {w w' : Weight} (h : w.SameRest w') :
    (costs.foldl supply w).SameRest (costs'.foldl supply w') := by
  induction costs generalizing costs' w w' with
  | nil =>
    obtain rfl := List.length_eq_zero_iff.mp hlen.symm
    exact h
  | cons c costs ih =>
    cases costs' with
    | nil => cases hlen
    | cons c' costs' =>
      refine ih (Nat.succ.inj hlen) (fun d hd => hfree d ?_) ?_
      · rcases List.mem_append.mp hd with hd | hd
        · exact List.mem_append_left _ (List.mem_cons_of_mem _ hd)
        · exact List.mem_append_right _ (List.mem_cons_of_mem _ hd)
      · have hc := hfree c (List.mem_append_left _ List.mem_cons_self)
        have hc' := hfree c' (List.mem_append_right _ List.mem_cons_self)
        constructor <;> simp [supply, absorb, hc, hc', h.genericArguments, h.required, h.specified,
          h.typeConstraints, h.interfaceConstraints, h.constructorConstraints, h.total]

/-- **The weight of a call** whose arguments are converted at some costs, where the value that is
asked for adds a cost and some generic parameters are bound. -/
def ofCall (costs : List MatchCost) (value : MatchCost) (bound : Nat) : Weight :=
  { (costs.foldl supply {}).absorb value with genericArguments := bound }

/-- **Calls with as many arguments compare as the sums of their conversions do.** -/
theorem compare_ofCall {costs costs' : List MatchCost} (hlen : costs.length = costs'.length)
    (hfree : ∀ c ∈ costs ++ costs', c.typeConstraints = 0 ∧ c.interfaceConstraints = 0 ∧
      c.constructorConstraints = 0) (value : MatchCost) (bound : Nat) :
    compare (ofCall costs value bound) (ofCall costs' value bound) =
      Ord.compare (costs.map MatchCost.conversions).sum (costs'.map MatchCost.conversions).sum := by
  have hrest : (ofCall costs value bound).SameRest (ofCall costs' value bound) :=
    { (sameRest_foldl_supply hlen hfree (.refl {})).absorb value with genericArguments := rfl }
  have hsum : ∀ costs, (ofCall costs value bound).conversions =
      (costs.map MatchCost.conversions).sum + value.conversions := fun costs => by
    change (costs.foldl supply {}).conversions + value.conversions = _
    rw [conversions_foldl_supply]
    exact congrArg (· + value.conversions) (zero_add _)
  rw [compare_of_sameRest hrest, hsum, hsum, ← cmp_eq_compare, cmp_add_right, cmp_eq_compare]

end Weight

end CallSite
