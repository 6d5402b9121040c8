import CallSite.Proofs.Call.Address
import CallSite.Proofs.Match.Closed
import CallSite.Proofs.Resolve.Evaluation

/-!
# Whether a parameter takes its argument

What a fit adds to what a call addresses is that each parameter takes the argument that goes to it,
and where there is nothing to infer, no more is asked for than that.

* `Parameter.Takes` – a parameter takes an argument, where there is nothing to infer.
* `exists_match_of_fitParameters` – what a fit says about an argument.
* `exists_fit_of_takes` – where there is nothing to infer, nothing else is asked for.
-/

namespace CallSite

/-- **A parameter takes an argument** where there is nothing to infer. -/
def Parameter.Takes (p : Parameter) (s : Store) (a : Argument) : Prop :=
  (a.type = none → s.isNullAssignable p.type) ∧
    ∀ t, a.type = some t → s.Accepts t (argumentVariance s p) p.type

/-! ### What a fit says -/

section Fit

variable {s : Store} {depth : Nat} {names : NameComparison} {arguments : Arguments}

/-- What is bound when a parameter is fitted stays bound. -/
theorem extends_of_stepwise {entries : List (Parameter × Nat)} {fit fit' : Fit × Inferred}
    (h : Stepwise (fun entry x y => fitParameter s depth names arguments x entry = some y)
      entries fit fit') : fit.2.start.Extends fit'.2.start :=
  h.keeps (P := fun x => fit.2.start.Extends x.2.start) (fun _ _ _ _ hstep hx =>
    fitParameter_keeps (P := fun inferred => fit.2.start.Extends inferred.start)
      (fun _ _ _ _ _ _ hmatch hi =>
        have hextends := matchWithin_extends hmatch
        hi.trans ⟨hextends.typeSlots, hextends.methodSlots⟩) hstep hx) (.refl _)

/-- **What a parameter was given matched it.** Null went to a parameter that admits it, and for any
other argument there was a match; what that match bound has stayed bound. -/
theorem exists_match_of_fitParameters {parameters : List Parameter} {inferred inferred' : Inferred}
    {fit : Fit} (h : fitParameters s depth names parameters arguments inferred =
      some (fit, inferred')) {k : Nat} {p : Parameter} (hp : parameters[k]? = some p)
    {a : Argument} {source : Source} (ha : supplied? names arguments k p = some (a, source)) :
    (a.type = none → s.isNullAssignable p.type) ∧ ∀ t, a.type = some t → ∃ x j,
      Stepwise (fun entry x y => fitParameter s depth names arguments x entry = some y)
        (parameters.zipIdx.take k) ({}, inferred) x ∧
      s.matches depth t (argumentVariance s p) p.type x.2.start = some j ∧
      j.Extends inferred'.start := by
  have hsteps := stepwise_of_fitParameters h
  have hentry : parameters.zipIdx[k]? = some (p, k) := by
    rw [List.getElem?_zipIdx, hp, Option.map_some, Nat.zero_add]
  obtain ⟨x, y, hbefore, hstep, hafter⟩ := hsteps.exists_step hentry
  have hextends := extends_of_stepwise hafter
  unfold fitParameter at hstep
  dsimp only at hstep
  rw [ha] at hstep
  obtain ⟨⟨w, after⟩, hfit, rfl⟩ := Option.map_eq_some_iff.mp hstep
  unfold fitArgument at hfit
  refine ⟨fun hnull => ?_, fun t ht => ?_⟩
  · rw [hnull] at hfit
    dsimp only at hfit
    split at hfit
    · assumption
    · cases hfit
  · rw [ht] at hfit
    obtain ⟨j, hj, hfit⟩ := Option.map_eq_some_iff.mp hfit
    cases hfit
    exact ⟨x, j, hbefore, hj, ⟨hextends.typeSlots, hextends.methodSlots⟩⟩

end Fit

/-! ### Nothing to infer -/

section Closed

variable {s : Store} {names : NameComparison} {arguments : Arguments}

/-- What gets no argument has a default. -/
theorem isOptional_of_addresses {parameters : List Parameter} {sources : List Source}
    (h : arguments.Addresses names parameters sources) {entry : Parameter × Nat}
    (hentry : entry ∈ parameters.zipIdx) (hnone : arguments.given? names entry = none) :
    entry.1.isOptional := by
  have hsource : arguments.source? names entry ∈ sources.map some := by
    rw [← h.sources]
    exact List.mem_map_of_mem hentry
  obtain ⟨source, -, hsource⟩ := List.mem_map.mp hsource
  rw [Arguments.source?, Option.map_eq_none_iff.mp hnone] at hsource
  by_contra hnot
  rw [if_neg hnot] at hsource
  cases hsource

/-- Parameters are weighed one by one at a depth where each of them takes what it is given. -/
theorem exists_foldlM_weighParameter {depth : Nat} {given? : Parameter × Nat → Option Argument}
    {entries : List (Parameter × Nat)}
    (hoptional : ∀ entry ∈ entries, given? entry = none → entry.1.isOptional)
    (htakes : ∀ entry ∈ entries, ∀ a, given? entry = some a →
      (a.type = none → s.isNullAssignable entry.1.type) ∧ ∀ t, a.type = some t → ∀ cost,
        (matchWithin s depth t (argumentVariance s entry.1) entry.1.type { cost := cost }).Closes)
    (w : Weight) :
    ∃ w', entries.foldlM (weighParameter s depth given?) (w, {}) = some (w', {}) := by
  induction entries generalizing w with
  | nil => exact ⟨w, rfl⟩
  | cons entry entries ih =>
    have hfirst : ∃ w', weighParameter s depth given? (w, {}) entry = some (w', {}) := by
      unfold weighParameter
      cases hgiven : given? entry with
      | none => exact ⟨_, if_pos (hoptional entry List.mem_cons_self hgiven)⟩
      | some a =>
        obtain ⟨hnull, htype⟩ := htakes entry List.mem_cons_self a hgiven
        dsimp only
        unfold fitArgument
        cases ha : a.type with
        | none =>
          dsimp only
          rw [if_pos (hnull ha)]
          exact ⟨_, rfl⟩
        | some t =>
          obtain ⟨cost, hclose⟩ := htype t ha {}
          dsimp only
          rw [matches_eq_some_iff.mpr (show matchWithin s depth t (argumentVariance s entry.1)
            entry.1.type (Inferred.start {}) = _ from hclose)]
          exact ⟨_, rfl⟩
    obtain ⟨w₁, hfirst⟩ := hfirst
    obtain ⟨w₂, hrest⟩ := ih (fun entry hmem => hoptional entry (List.mem_cons_of_mem _ hmem))
      (fun entry hmem => htakes entry (List.mem_cons_of_mem _ hmem)) w₁
    refine ⟨w₂, ?_⟩
    rw [List.foldlM_cons, hfirst]
    exact hrest

/-- **Where there is nothing to infer**, a call that addresses the parameters fits them at every
depth that is great enough, if each of them takes what it is given. -/
theorem exists_fit_of_takes {parameters : List Parameter} {sources : List Source}
    (haddresses : arguments.Addresses names parameters sources)
    (htakes : ∀ k p, parameters[k]? = some p → ∀ a, arguments.given? names (p, k) = some a →
      p.Takes s a) :
    ∃ n, ∀ depth, n ≤ depth → ∃ fit,
      fitParameters s depth names parameters arguments {} = some (fit, {}) ∧
      fit.sources = sources := by
  have hentry : ∀ entry ∈ parameters.zipIdx, ∀ a, arguments.given? names entry = some a →
      entry.1.Takes s a :=
    fun entry hmem => htakes _ _ (List.mem_zipIdx_iff_getElem?.mp hmem)
  have hclose : ∀ᶠ depth in Filter.atTop, ∀ entry ∈ parameters.zipIdx, ∀ a,
      arguments.given? names entry = some a → ∀ t, a.type = some t → ∀ cost,
        (matchWithin s depth t (argumentVariance s entry.1) entry.1.type
          { cost := cost }).Closes := by
    refine Store.eventually_forall_mem fun entry hmem => ?_
    -- Whether anything is given, and of what type, does not depend on the depth.
    cases hgiven : arguments.given? names entry with
    | none => exact .of_forall fun _ _ h => absurd h (by rintro ⟨⟩)
    | some a =>
      cases ha : a.type with
      | none =>
        refine .of_forall fun _ _ h t ht => ?_
        obtain rfl := Option.some.inj h
        rw [ha] at ht
        cases ht
      | some t =>
        filter_upwards [((hentry entry hmem a hgiven).2 t ha).eventually] with depth hclose
        intro a' h t' ht'
        obtain rfl := Option.some.inj h
        obtain rfl := Option.some.inj (ha.symm.trans ht')
        exact hclose
  obtain ⟨n, hn⟩ := Filter.eventually_atTop.mp hclose
  refine ⟨n, fun depth hdepth => ?_⟩
  obtain ⟨w, hfold⟩ := exists_foldlM_weighParameter
    (fun entry hmem hnone => isOptional_of_addresses haddresses hmem hnone)
    (fun entry hmem a ha => ⟨(hentry entry hmem a ha).1, hn depth hdepth entry hmem a ha⟩) {}
  exact ⟨⟨w, sources⟩, fitParameters_eq_some_iff.mpr ⟨haddresses, hfold⟩, rfl⟩

end Closed

end CallSite
