import CallSite.Call.Weight
import Mathlib.Order.Compare

/-!
# Ranking is an order

Weights are compared counter by counter, each counter from one of its two ends. Comparing by one
counter is comparing numbers, a comparison by one counter and then by the rest is again an order
(`Weight.transCmp_compareAll`), and so is `Weight.compare`, which goes through all of
`CallSite.ranking`. What is compared lexicographically never needs to be opened again: the laws of
`Std.TransCmp` say all that a choice among ranked overloads relies on.

Two more facts are proved counter by counter in the same way.

* `Weight.compare_eq_eq_iff` – weights rank equally when they differ in the one counter that is not
  compared, and only then.
* `Weight.compare_absorb` – a cost that is added to both weights does not change their order, since
  what it adds to a counter does not depend on the weight. Counters have no bound, so nothing that
  is added gets lost.
-/

namespace CallSite

namespace Weight

/-- Comparing by one counter is comparing numbers, from the end that ranks first. -/
theorem transCmp_compareBy (entry : Criterion × Preference) :
    Std.TransCmp fun a b : Weight => compareBy a b entry := by
  obtain ⟨criterion, preference⟩ := entry
  have hfewer : Std.TransCmp (compareOn fun w : Weight => w.get criterion) := inferInstance
  cases preference with
  | fewer => exact hfewer
  | more => exact @Std.TransCmp.opposite _ _ hfewer

/-- Compare by some counters, those in front first. -/
def compareAll (entries : List (Criterion × Preference)) (a b : Weight) : Ordering :=
  entries.foldr (fun entry rest => (compareBy a b entry).then rest) .eq

theorem transCmp_compareAll (entries : List (Criterion × Preference)) :
    Std.TransCmp (compareAll entries) := by
  induction entries with
  | nil => exact { eq_swap := rfl, isLE_trans := fun _ _ => rfl }
  | cons entry entries ih =>
    have hfirst := transCmp_compareBy entry
    exact inferInstanceAs
      (Std.TransCmp (compareLex (fun a b => compareBy a b entry) (compareAll entries)))

/-- **The comparison of weights is an order**, up to weights that rank equally. -/
instance : Std.TransCmp compare :=
  transCmp_compareAll ranking

theorem isBetter_iff {a b : Weight} : a.isBetter b ↔ compare a b = .lt := by
  rw [isBetter, beq_iff_eq]

/-- Neither of two weights ranks before the other when they rank equally. -/
theorem compare_eq_eq_iff_not_isBetter {a b : Weight} :
    compare a b = .eq ↔ ¬ a.isBetter b ∧ ¬ b.isBetter a := by
  rw [isBetter_iff, isBetter_iff, @Std.OrientedCmp.eq_swap _ compare _ b a]
  cases compare a b <;> decide

/-! ### Weights that rank equally -/

theorem compareBy_eq_eq_iff {a b : Weight} {entry : Criterion × Preference} :
    compareBy a b entry = .eq ↔ a.get entry.1 = b.get entry.1 := by
  obtain ⟨criterion, preference⟩ := entry
  cases preference with
  | fewer => exact Nat.compare_eq_eq
  | more => exact Nat.compare_eq_eq.trans eq_comm

/-- From whichever end the counters are compared, what ranks equally counts the same. -/
theorem compareAll_eq_eq_iff {entries : List (Criterion × Preference)} {a b : Weight} :
    compareAll entries a b = .eq ↔ ∀ entry ∈ entries, a.get entry.1 = b.get entry.1 := by
  induction entries with
  | nil => exact iff_of_true rfl (List.forall_mem_nil _)
  | cons entry entries ih =>
    rw [List.forall_mem_cons, ← compareBy_eq_eq_iff, ← ih]
    exact Ordering.then_eq_eq

/-- **Weights rank equally exactly when they are the same** but for the number of identical
arguments. -/
theorem compare_eq_eq_iff {a b : Weight} :
    compare a b = .eq ↔ { a with identical := b.identical } = b := by
  have hcounters : compare a b = .eq ↔ ∀ entry ∈ ranking, a.get entry.1 = b.get entry.1 :=
    compareAll_eq_eq_iff
  rw [hcounters]
  cases b
  simp [ranking, get]

/-! ### Costs added to both sides -/

/-- What a cost adds to a weight it adds to every weight. -/
theorem get_absorb (w : Weight) (cost : MatchCost) (criterion : Criterion) :
    (w.absorb cost).get criterion = w.get criterion + (absorb {} cost).get criterion := by
  cases criterion <;> simp [absorb, get]

theorem compareBy_absorb (a b : Weight) (cost : MatchCost) (entry : Criterion × Preference) :
    compareBy (a.absorb cost) (b.absorb cost) entry = compareBy a b entry := by
  have hadd : ∀ m n k : Nat, Ord.compare (m + k) (n + k) = Ord.compare m n := fun m n k => by
    simp only [Nat.compare_eq_ite_lt, Nat.add_lt_add_iff_right]
  obtain ⟨criterion, preference⟩ := entry
  cases preference with
  | fewer => rw [compareBy, get_absorb a, get_absorb b, hadd, compareBy]
  | more => rw [compareBy, get_absorb a, get_absorb b, hadd, compareBy]

theorem compareAll_absorb (entries : List (Criterion × Preference)) (a b : Weight)
    (cost : MatchCost) :
    compareAll entries (a.absorb cost) (b.absorb cost) = compareAll entries a b := by
  induction entries with
  | nil => rfl
  | cons entry entries ih => exact congrArg₂ Ordering.then (compareBy_absorb a b cost entry) ih

/-- **A cost that both weights take on does not change how they rank.** -/
theorem compare_absorb (a b : Weight) (cost : MatchCost) :
    compare (a.absorb cost) (b.absorb cost) = compare a b :=
  compareAll_absorb ranking a b cost

/-- **Ranking is a strict weak order that added costs keep.** The comparison turned around is the
comparison of the weights turned around; to rank before is irreflexive and transitive; to rank
equally, which is that neither ranks before the other, is transitive, and holds of weights that
agree in each of the eleven counters that are compared, whatever their numbers of identical
arguments are, and of no others; and a cost that is added to both weights changes nothing. -/
theorem ranking_laws (a b c : Weight) (cost : MatchCost) :
    compare a b = (compare b a).swap ∧
      ¬ a.isBetter a ∧
      (a.isBetter b → b.isBetter c → a.isBetter c) ∧
      (compare a b = .eq ↔ ¬ a.isBetter b ∧ ¬ b.isBetter a) ∧
      (compare a b = .eq → compare b c = .eq → compare a c = .eq) ∧
      (compare a b = .eq ↔ { a with identical := b.identical } = b) ∧
      compare (a.absorb cost) (b.absorb cost) = compare a b := by
  refine ⟨Std.OrientedCmp.eq_swap, ?_, ?_, compare_eq_eq_iff_not_isBetter, Std.TransCmp.eq_trans,
    compare_eq_eq_iff, compare_absorb a b cost⟩
  · rw [isBetter_iff, @Std.ReflCmp.compare_self _ compare]
    decide
  · rw [isBetter_iff, isBetter_iff, isBetter_iff]
    exact Std.TransCmp.lt_trans

end Weight

end CallSite
