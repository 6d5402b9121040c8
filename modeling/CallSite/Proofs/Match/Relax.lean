import CallSite.Proofs.Match.Transaction
import CallSite.Proofs.Type.Check

/-!
# A looser variance keeps every match

An invariant match allows no difference between the two types beyond the parameters that it binds.
A variance allows more, and it is tried last: where parts of the same kind match already, nothing
above either type is looked at. So what matches under no variance matches under every one, and with
the same result.

Two places pass a variance on instead of ending with it, and both need the match of the level below:
a reference as the member, and a parameter that is bound already, whose match is tried in both
directions.

* `Matcher.Relaxes` – what an invariant match accepts is accepted under every variance.
* `CallSite.matchStep_relaxes`, `CallSite.matchWithin_relaxes` – one level keeps this, and so every
  match has it.
* `CallSite.search_relaxed` – what this says of the search.
-/

namespace CallSite

/-- **What an invariant match accepts is accepted under every variance**, with the same result. -/
def Matcher.Relaxes (recurse : Matcher) : Prop :=
  ∀ {source member : TypeId} {i j : Inference}, recurse source .invariant member i = .accepted j →
    ∀ v, recurse source v member i = .accepted j

/-! ### One level -/

section Level

variable {s : Store} {recurse : Matcher} (hr : recurse.Relaxes)
  {source member : TypeId} {i j : Inference} (v : Variance)

include hr

/-- A parameter that is bound already is matched in one direction and then in the other. Under no
variance both are the same match, so that the first one is accepted if any is. -/
theorem matchParameter_relaxes {p : GenericParameter}
    (h : matchParameter s recurse source .invariant member p i = .accepted j) :
    matchParameter s recurse source v member p i = .accepted j := by
  unfold matchParameter at h ⊢
  split
  case isTrue howns =>
    rw [if_pos howns] at h
    cases hbound : i.bound? p with
    | none =>
      rw [hbound] at h
      exact h
    | some bound =>
      simp only [hbound] at h ⊢
      split
      case isTrue heq =>
        rw [if_pos heq] at h
        exact h
      case isFalse hne =>
        rw [if_neg hne] at h
        rcases Attempt.orElse_eq_accepted_iff.mp h with hfirst | ⟨hrefused, hsecond⟩
        · exact Attempt.orElse_eq_accepted_iff.mpr (.inl (hr hfirst v))
        · change recurse source .invariant bound i = .accepted j at hsecond
          rw [hsecond] at hrefused
          cases hrefused
  case isFalse howns =>
    rw [if_neg howns] at h
    exact h

/-- **One level of a match relaxes**: what a variance allows comes after what needs none. -/
theorem matchStep_relaxes (h : matchStep s recurse source .invariant member i = .accepted j) :
    matchStep s recurse source v member i = .accepted j := by
  unfold matchStep at h ⊢
  split
  case h_1 p hp =>
    simp only [hp] at h
    exact matchParameter_relaxes hr v h
  case h_2 element href =>
    simp only [href] at h
    split
    case isTrue heq =>
      rw [if_pos heq] at h
      exact h
    case isFalse hne =>
      rw [if_neg hne] at h
      split
      case h_1 element' hsource =>
        simpa only [hsource] using h
      case h_2 hplain =>
        -- The reference is taken off the member, and the variance is passed on.
        split at h
        · exact absurd ‹_› (hplain _)
        · exact hr h v
  case h_3 hparameter href =>
    split at h
    · exact absurd ‹_› (hparameter _)
    · exact absurd ‹_› (href _)
    split
    case isTrue heq =>
      rw [if_pos heq] at h
      exact h
    case isFalse hne =>
      rw [if_neg hne] at h
      rcases Attempt.orElse_eq_accepted_iff.mp h with helements | ⟨helements, hrest⟩
      · exact Attempt.orElse_eq_accepted_iff.mpr (.inl helements)
      rcases Attempt.orElse_eq_accepted_iff.mp hrest with harguments | ⟨-, hvariance⟩
      · exact Attempt.orElse_eq_accepted_iff.mpr
          (.inr ⟨helements, Attempt.orElse_eq_accepted_iff.mpr (.inl harguments)⟩)
      · cases hvariance

end Level

/-! ### All depths -/

/-- **Every match relaxes.** -/
theorem matchWithin_relaxes (s : Store) (depth : Nat) : (matchWithin s depth).Relaxes := by
  induction depth with
  | zero => exact fun h => nomatch h
  | succ depth ih => exact fun h v => matchStep_relaxes ih v h

/-- **A looser variance keeps every match and what it infers.** What a search finds under no
variance it finds under each of them from the same inference: the same bindings, on top of whatever
was bound before, and the same cost, on top of whatever was counted before. -/
theorem search_relaxed {s : Store} {depth : Nat} {source member : TypeId} {i j : Inference}
    (h : s.search depth source .invariant member i = some (true, j)) (v : Variance) :
    s.search depth source v member i = some (true, j) :=
  search_eq_true_iff.mpr (matchWithin_relaxes s depth (search_eq_true_iff.mp h) v)

/-- A nullable number is passed where a reference to any nullable type is expected. The slot of the
nullable type is bound to `Int32`, and one constraint is counted on top of three interfaces, with or
without a variance. -/
theorem search_relaxed_nullable :
    ∃ (s : Store) (source member : TypeId) (i j : Inference), s.Reachable (fun _ _ => True) ∧
      s.search 4 source .invariant member i = some (true, j) ∧
      j.typeSlots.bound = [some Core.int32] ∧
      j.cost = { totalInterfaces := 3, typeConstraints := 1 } ∧
      s.search 4 source .covariant member i = some (true, j) ∧
      s.search 4 source .contravariant member i = some (true, j) := by
  let ops : List Operation := [.nullableOf Core.int32, .byRef Core.nullable]
  let i : Inference :=
    { typeSlots := Slots.ofArity (.type Core.nullable) 1, cost := { totalInterfaces := 3 } }
  let j : Inference :=
    { typeSlots := { owner := some (.type Core.nullable), bound := [some Core.int32] }
      cost := { totalInterfaces := 3, typeConstraints := 1 } }
  have hreach : (Store.initial.afterAll ops).Reachable (fun _ _ => True) :=
    (Store.Reachable.of_scopedRun (by decide +kernel)).mono fun _ _ _ => trivial
  have h : (Store.initial.afterAll ops).search 4 ⟨27⟩ .invariant ⟨28⟩ i = some (true, j) := by
    decide +kernel
  exact ⟨_, ⟨27⟩, ⟨28⟩, i, j, hreach, h, rfl, rfl, search_relaxed h .covariant,
    search_relaxed h .contravariant⟩

end CallSite
