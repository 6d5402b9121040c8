import CallSite.Proofs.Match.Transaction
import CallSite.Resolve.Resolver

/-!
# The matches of an evaluation

To evaluate a candidate is to match the types of a query one after another, each from what the
matches before it have inferred: the method arguments that are given, the arguments of the call, and
the type that is asked for. So what every match keeps is kept by the evaluation
(`CallSite.evaluate_keeps`), and an accepted candidate has nothing left to infer.
-/

namespace CallSite

/-! ### The types of a query -/

/-- The types of the arguments of a call. Null has none. -/
def Arguments.types (arguments : Arguments) : List TypeId :=
  (arguments.positional ++ arguments.named.map Prod.snd).filterMap Argument.type

/-- **The types that a query matches**: method arguments, call-site arguments, and the type that is
asked for. -/
def Query.types (query : Query) : List TypeId :=
  query.methodArguments ++ query.arguments.types ++ query.valueType.toList

theorem Arguments.mem_types {arguments : Arguments} {a : Argument} {t : TypeId}
    (ha : a ∈ arguments.positional ∨ ∃ name, (name, a) ∈ arguments.named) (ht : a.type = some t) :
    t ∈ arguments.types := by
  refine List.mem_filterMap.mpr ⟨a, List.mem_append.mpr ?_, ht⟩
  exact ha.imp_right fun ⟨name, hname⟩ => List.mem_map.mpr ⟨_, hname, rfl⟩

/-- What is supplied is an argument of the call. -/
theorem mem_of_supplied? {names : NameComparison} {arguments : Arguments} {index : Nat}
    {p : Parameter} {a : Argument} {source : Source}
    (h : supplied? names arguments index p = some (a, source)) :
    a ∈ arguments.positional ∨ ∃ name, (name, a) ∈ arguments.named := by
  unfold supplied? at h
  split at h
  case h_1 a' ha' =>
    cases h
    exact .inl (List.mem_of_getElem? ha')
  case h_2 =>
    obtain ⟨name, -, h⟩ := Option.bind_eq_some_iff.mp h
    obtain ⟨a', ha', h⟩ := Option.map_eq_some_iff.mp h
    cases h
    obtain ⟨entry, hentry, rfl⟩ := Option.map_eq_some_iff.mp ha'
    exact .inr ⟨entry.1, List.mem_of_find?_eq_some hentry⟩

/-! ### One match after another -/

section Evaluate

variable {s : Store} {depth : Nat} {names : NameComparison} {query : Query} {member : Member}
  {P : Inferred → Prop}

/-- **Every match keeps** what is known of the types that are inferred. -/
def KeptByMatches (s : Store) (depth : Nat) (ts : List TypeId) (P : Inferred → Prop) : Prop :=
  ∀ u ∈ ts, ∀ v m i j, matchWithin s depth u v m i = .accepted j → P i.inferred → P j.inferred

theorem KeptByMatches.of_subset {ts ts' : List TypeId} (h : KeptByMatches s depth ts P)
    (hsub : ∀ u ∈ ts', u ∈ ts) : KeptByMatches s depth ts' P :=
  fun u hu => h u (hsub u hu)

theorem matchAll_keeps {pairs : List (TypeId × TypeId)} {i j : Inference}
    (hkeep : KeptByMatches s depth (pairs.map Prod.fst) P) (h : matchAll s depth pairs i = some j)
    (hi : P i.inferred) : P j.inferred := by
  have hsteps := Stepwise.foldlM_eq_some_iff.mp h
  refine hsteps.keeps (P := fun i => P i.inferred) (fun pair hmem x y hxy hx => ?_) hi
  exact hkeep pair.1 (List.mem_map_of_mem hmem) _ _ _ _ (matches_eq_some_iff.mp hxy) hx

theorem matchMethodArguments_keeps {i j : Inference}
    (hkeep : KeptByMatches s depth query.methodArguments P)
    (h : matchMethodArguments s depth query member i = some j) (hi : P i.inferred) :
    P j.inferred := by
  unfold matchMethodArguments at h
  split at h
  · obtain rfl := Option.some.inj h
    exact hi
  split at h
  · cases h
  · refine matchAll_keeps (hkeep.of_subset fun u hu => ?_) h hi
    obtain ⟨pair, hpair, rfl⟩ := List.mem_map.mp hu
    exact (List.of_mem_zip hpair).1

theorem fitArgument_keeps {p : Parameter} {a : Argument} {w w' : Weight}
    {inferred inferred' : Inferred} (hkeep : KeptByMatches s depth a.type.toList P)
    (h : fitArgument s depth p a w inferred = some (w', inferred')) (hi : P inferred) :
    P inferred' := by
  unfold fitArgument at h
  split at h
  · split at h
    · cases h
      exact hi
    · cases h
  case h_2 t ht =>
    obtain ⟨j, hj, h⟩ := Option.map_eq_some_iff.mp h
    cases h
    exact hkeep t (by simp [ht]) _ _ _ _ (matches_eq_some_iff.mp hj) hi

theorem fitParameter_keeps {arguments : Arguments} {fit fit' : Fit × Inferred}
    {entry : Parameter × Nat} (hkeep : KeptByMatches s depth arguments.types P)
    (h : fitParameter s depth names arguments fit entry = some fit') (hi : P fit.2) :
    P fit'.2 := by
  unfold fitParameter at h
  dsimp only at h
  split at h
  case h_1 a source hsupplied =>
    obtain ⟨⟨w, inferred⟩, hfit, rfl⟩ := Option.map_eq_some_iff.mp h
    refine fitArgument_keeps (hkeep.of_subset fun u hu => ?_) hfit hi
    exact Arguments.mem_types (mem_of_supplied? hsupplied) (Option.mem_toList.mp hu)
  case h_2 =>
    split at h
    · cases h
      exact hi
    · cases h

/-- A call that fits was fitted parameter by parameter. -/
theorem stepwise_of_fitParameters {parameters : List Parameter} {arguments : Arguments}
    {inferred : Inferred} {fit : Fit × Inferred}
    (h : fitParameters s depth names parameters arguments inferred = some fit) :
    Stepwise (fun entry x y => fitParameter s depth names arguments x entry = some y)
      parameters.zipIdx ({}, inferred) fit := by
  unfold fitParameters at h
  split at h
  · cases h
  split at h
  case isTrue => exact Stepwise.foldlM_eq_some_iff.mp h
  case isFalse => cases h

theorem fitParameters_keeps {parameters : List Parameter} {arguments : Arguments}
    {inferred inferred' : Inferred} {fit : Fit} (hkeep : KeptByMatches s depth arguments.types P)
    (h : fitParameters s depth names parameters arguments inferred = some (fit, inferred'))
    (hi : P inferred) : P inferred' :=
  (stepwise_of_fitParameters h).keeps (P := fun fit => P fit.2)
    (fun _ _ _ _ hxy hx => fitParameter_keeps hkeep hxy hx) hi

theorem fitParameters_of_fitCall {inferred : Inferred} {fit : Fit × Inferred}
    (h : fitCall s depth names query member inferred = some fit) :
    fitParameters s depth names member.parameters query.arguments inferred = some fit := by
  unfold fitCall at h
  split at h
  · cases h
  · exact h

theorem fitCall_keeps {inferred inferred' : Inferred} {fit : Fit}
    (hkeep : KeptByMatches s depth query.arguments.types P)
    (h : fitCall s depth names query member inferred = some (fit, inferred')) (hi : P inferred) :
    P inferred' :=
  fitParameters_keeps hkeep (fitParameters_of_fitCall h) hi

/-- **What a value does to a fit**: nothing if no value is asked for, and otherwise it adds what its
match costs and binds. -/
theorem exists_of_matchValue {fit fit' : Fit × Inferred}
    (h : matchValue s depth query member fit = some fit') :
    (query.valueType = none ∧ fit' = fit) ∨ ∃ expected actual j,
      query.valueType = some expected ∧ member.valueType = some actual ∧
      s.matches depth expected query.variance actual fit.2.start = some j ∧
      fit' = ({ fit.1 with weight := fit.1.weight.absorb j.cost }, j.inferred) := by
  unfold matchValue at h
  split at h
  case h_1 hnone => exact .inl ⟨hnone, (Option.some.inj h).symm⟩
  case h_2 expected hexpected =>
    obtain ⟨actual, hactual, h⟩ := Option.bind_eq_some_iff.mp h
    obtain ⟨j, hj, h⟩ := Option.bind_eq_some_iff.mp h
    exact .inr ⟨expected, actual, j, hexpected, hactual, hj, (Option.some.inj h).symm⟩

theorem matchValue_keeps {fit fit' : Fit × Inferred}
    (hkeep : KeptByMatches s depth query.valueType.toList P)
    (h : matchValue s depth query member fit = some fit') (hi : P fit.2) : P fit'.2 := by
  obtain ⟨-, rfl⟩ | ⟨expected, actual, j, hexpected, -, hj, rfl⟩ := exists_of_matchValue h
  · exact hi
  · exact hkeep expected (by simp [hexpected]) _ _ _ _ (matches_eq_some_iff.mp hj) hi

/-- **The parts of an accepted evaluation**: what the method arguments, the arguments of the call
and the value infer one after another, until nothing is left to infer. -/
theorem exists_of_evaluate {typeSlots : Slots} {fit : Fit} {inferred : Inferred}
    (h : evaluate s depth names query member typeSlots = some (fit, inferred)) :
    ∃ i called valued, matchMethodArguments s depth query member
        { typeSlots := typeSlots, methodSlots := methodSlots member } = some i ∧
      fitCall s depth names query member i.inferred = some called ∧
      matchValue s depth query member
        ({ called.1 with weight := called.1.weight.absorb i.cost }, called.2) = some valued ∧
      fit = { valued.1 with weight := { valued.1.weight with
        genericArguments := inferred.typeSlots.boundCount + inferred.methodSlots.boundCount } } ∧
      inferred = valued.2 ∧ inferred.methodSlots.isComplete ∧ inferred.typeSlots.isComplete := by
  unfold evaluate at h
  obtain ⟨i, hi, h⟩ := Option.bind_eq_some_iff.mp h
  obtain ⟨called, hcalled, h⟩ := Option.bind_eq_some_iff.mp h
  obtain ⟨valued, hvalued, h⟩ := Option.bind_eq_some_iff.mp h
  dsimp only at h
  split at h
  case isTrue hcomplete =>
    rw [Bool.and_eq_true] at hcomplete
    cases h
    exact ⟨i, called, valued, hi, hcalled, hvalued, rfl, rfl, hcomplete⟩
  case isFalse => cases h

/-- **What every match keeps is kept by the evaluation** of a candidate. -/
theorem evaluate_keeps {typeSlots : Slots} {fit : Fit} {inferred : Inferred}
    (hkeep : KeptByMatches s depth query.types P)
    (h : evaluate s depth names query member typeSlots = some (fit, inferred))
    (hstart : P { typeSlots := typeSlots, methodSlots := methodSlots member }) : P inferred := by
  obtain ⟨i, called, valued, hi, hcalled, hvalued, -, rfl, -⟩ := exists_of_evaluate h
  have hmethod := matchMethodArguments_keeps (hkeep.of_subset fun u hu =>
    List.mem_append_left _ (List.mem_append_left _ hu)) hi hstart
  have hcall := fitCall_keeps (hkeep.of_subset fun u hu =>
    List.mem_append_left _ (List.mem_append_right _ hu)) hcalled hmethod
  exact matchValue_keeps (hkeep.of_subset fun u hu => List.mem_append_right _ hu) hvalued hcall

end Evaluate

end CallSite
