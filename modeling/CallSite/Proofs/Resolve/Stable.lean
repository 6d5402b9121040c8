import CallSite.Proofs.Match.Stable
import CallSite.Proofs.Member.Repeat
import CallSite.Proofs.Resolve.Evaluation

/-!
# Evaluating in a store that has grown

A candidate whose types are held is evaluated on held types only: the types of the query are, and so
is what a match binds. So the types that were added since do not matter to the evaluation
(`CallSite.evaluate_of_extends`), and what it infers is held (`CallSite.holds_of_evaluate`).
-/

namespace CallSite

/-- Everything that was inferred is held. -/
def Inferred.HeldBy (inferred : Inferred) (s : Store) : Prop :=
  inferred.start.All s.Holds

section Evaluate

variable {s s' : Store} (hs : s.WellFormed) (hgrown : s.Grown s') {depth : Nat}
  {names : NameComparison} {query : Query} {member : Member}

theorem Inference.heldBy_inferred {i : Inference} (h : i.All s.Holds) : i.inferred.HeldBy s :=
  h.of_slots_eq rfl rfl

theorem Inferred.HeldBy.inference {i : Inference} (h : i.inferred.HeldBy s) : i.All s.Holds :=
  Inference.All.of_slots_eq h rfl rfl

include hs

/-- **What a match binds is held** if its source is. -/
theorem keptByMatches_holds {ts : List TypeId} (hts : ∀ t ∈ ts, s.Holds t) :
    KeptByMatches s depth ts fun inferred => inferred.HeldBy s := by
  intro u hu v m i j hmatch hi
  exact Inference.heldBy_inferred (matchWithin_inherits hs.inherited_holds hmatch (hts u hu)
    hi.inference)

include hgrown

theorem matches_of_extends {source m : TypeId} {v : Variance} {i : Inference}
    (hsource : s.Holds source) (hm : s.Holds m) (hi : i.All s.Holds) :
    s'.matches depth source v m i = s.matches depth source v m i := by
  refine Option.ext fun j => ?_
  rw [matches_eq_some_iff, matches_eq_some_iff,
    matchWithin_of_extends hs hgrown.toExtends hsource hm hi]

theorem matchAll_of_extends {pairs : List (TypeId × TypeId)} {i : Inference}
    (hpairs : ∀ pair ∈ pairs, s.Holds pair.1 ∧ s.Holds pair.2) (hi : i.All s.Holds) :
    matchAll s' depth pairs i = matchAll s depth pairs i := by
  refine foldlM_congr (P := fun i : Inference => i.All s.Holds) (fun pair hpair i hi => ?_)
    (fun pair hpair i j hi hj => ?_) hi
  · exact matches_of_extends hs hgrown (hpairs pair hpair).1 (hpairs pair hpair).2 hi
  · exact matchWithin_inherits hs.inherited_holds (matches_eq_some_iff.mp hj) (hpairs pair hpair).1
      hi

theorem matchMethodArguments_of_extends {i : Inference} (hm : member.HeldBy s)
    (hquery : ∀ t ∈ query.methodArguments, s.Holds t) (hi : i.All s.Holds) :
    matchMethodArguments s' depth query member i = matchMethodArguments s depth query member i := by
  obtain ⟨-, -, -, hgeneric, -⟩ := Member.heldBy_iff.mp hm
  rw [matchMethodArguments, matchMethodArguments]
  split
  · rfl
  split
  · rfl
  · exact matchAll_of_extends hs hgrown (fun pair hpair =>
      ⟨hquery _ (List.of_mem_zip hpair).1, hgeneric _ (List.of_mem_zip hpair).2⟩) hi

theorem fitArgument_of_extends {p : Parameter} {a : Argument} {w : Weight} {inferred : Inferred}
    (hp : s.Holds p.type) (ha : ∀ t, a.type = some t → s.Holds t) (hi : inferred.HeldBy s) :
    fitArgument s' depth p a w inferred = fitArgument s depth p a w inferred := by
  have hext := hgrown.toExtends
  have hinner := Store.holds_stripByRef hs hp
  have hopen : ∀ w, countOpen s' p w = countOpen s p w := fun w => by
    rw [countOpen, countOpen, Store.stripByRef_of_extends hext hp,
      Store.isOpen_of_grown hs hgrown hinner, hext.info_eq hinner]
  have hvariance : argumentVariance s' p = argumentVariance s p := by
    rw [argumentVariance, argumentVariance, Parameter.isByRef, Parameter.isByRef, hext.info_eq hp]
  rw [fitArgument, fitArgument]
  split
  case h_1 => rw [Store.isNullAssignable_of_extends hs hext hp, hopen]
  case h_2 t ht =>
    have hidentical : ∀ w, countIdentical s' t p w = countIdentical s t p w := fun w => by
      rw [countIdentical, countIdentical, Store.stripByRef_of_extends hext hp,
        Store.stripByRef_of_extends hext (ha t ht)]
    rw [hvariance, matches_of_extends hs hgrown (ha t ht) hp hi]
    refine congrArg (Option.map · _) (funext fun i => ?_)
    rw [hopen, hidentical]

theorem fitParameters_of_extends {parameters : List Parameter} {arguments : Arguments}
    {inferred : Inferred} (hparameters : ∀ p ∈ parameters, s.Holds p.type)
    (harguments : ∀ t ∈ arguments.types, s.Holds t) (hi : inferred.HeldBy s) :
    fitParameters s' depth names parameters arguments inferred =
      fitParameters s depth names parameters arguments inferred := by
  rw [fitParameters, fitParameters]
  split
  · rfl
  split
  case isFalse => rfl
  case isTrue =>
    refine foldlM_congr (P := fun fit => fit.2.HeldBy s) (fun entry hentry fit hfit => ?_)
      (fun entry _ fit fit' hfit h => ?_) hi
    · rw [fitParameter, fitParameter]
      split
      case h_1 a source hsupplied =>
        rw [fitArgument_of_extends hs hgrown
          (hparameters _ (List.fst_mem_of_mem_zipIdx hentry)) (fun t ht => ?_) hfit]
        exact harguments t (Arguments.mem_types (mem_of_supplied? hsupplied) ht)
      case h_2 => rfl
    · exact fitParameter_keeps (keptByMatches_holds hs harguments) h hfit

theorem matchValue_of_extends {fit : Fit × Inferred} (hm : member.HeldBy s)
    (hquery : ∀ t, query.valueType = some t → s.Holds t) (hi : fit.2.HeldBy s) :
    matchValue s' depth query member fit = matchValue s depth query member fit := by
  obtain ⟨-, -, hvalue, -, -⟩ := Member.heldBy_iff.mp hm
  rw [matchValue, matchValue]
  split
  · rfl
  case h_2 t ht =>
    refine Option.bind_congr fun actual hactual => ?_
    rw [matches_of_extends hs hgrown (hquery t ht) (hvalue _ hactual) hi]

omit hs hgrown in
theorem Query.holds_types_iff : (∀ t ∈ query.types, s.Holds t) ↔
    (∀ t ∈ query.methodArguments, s.Holds t) ∧ (∀ t ∈ query.arguments.types, s.Holds t) ∧
      ∀ t, query.valueType = some t → s.Holds t := by
  simp [types, or_imp, forall_and]

/-- **To evaluate a candidate is the same** in a store that has grown. -/
theorem evaluate_of_extends {typeSlots : Slots} (hm : member.HeldBy s)
    (hquery : ∀ t ∈ query.types, s.Holds t)
    (hstart : Inferred.HeldBy { typeSlots := typeSlots, methodSlots := methodSlots member } s) :
    evaluate s' depth names query member typeSlots =
      evaluate s depth names query member typeSlots := by
  obtain ⟨-, hparameters, -, -, -⟩ := Member.heldBy_iff.mp hm
  obtain ⟨hmethod, harguments, hvalue⟩ := Query.holds_types_iff.mp hquery
  have hfirst : matchMethodArguments s' depth query member
      { typeSlots := typeSlots, methodSlots := methodSlots member } = _ :=
    matchMethodArguments_of_extends hs hgrown hm hmethod hstart
  rw [evaluate, evaluate, hfirst]
  refine Option.bind_congr fun i hi => ?_
  have hheld := matchMethodArguments_keeps (keptByMatches_holds hs hmethod) hi hstart
  have hfit : fitCall s' depth names query member i.inferred =
      fitCall s depth names query member i.inferred := by
    rw [fitCall, fitCall, fitParameters_of_extends hs hgrown hparameters harguments hheld]
  rw [hfit]
  refine Option.bind_congr fun called hcalled => ?_
  have hheld' := fitCall_keeps (keptByMatches_holds hs harguments) hcalled hheld
  have hlast : matchValue s' depth query member
      ({ called.1 with weight := called.1.weight.absorb i.cost }, called.2) = _ :=
    matchValue_of_extends hs hgrown hm hvalue hheld'
  dsimp only at hlast ⊢
  rw [hlast]

omit hgrown in
/-- **What is inferred for a candidate is held.** -/
theorem holds_of_evaluate {typeSlots : Slots} {fit : Fit} {inferred : Inferred}
    (hquery : ∀ t ∈ query.types, s.Holds t)
    (h : evaluate s depth names query member typeSlots = some (fit, inferred))
    (hstart : Inferred.HeldBy { typeSlots := typeSlots, methodSlots := methodSlots member } s) :
    inferred.HeldBy s :=
  evaluate_keeps (keptByMatches_holds hs hquery) h hstart

omit hs hgrown in
/-- The slots of an evaluation are those that it begins with, some of them bound. -/
theorem extends_of_evaluate {typeSlots : Slots} {fit : Fit} {inferred : Inferred}
    (h : evaluate s depth names query member typeSlots = some (fit, inferred)) :
    typeSlots.Extends inferred.typeSlots ∧ (methodSlots member).Extends inferred.methodSlots := by
  refine evaluate_keeps (P := fun inferred => typeSlots.Extends inferred.typeSlots ∧
    (methodSlots member).Extends inferred.methodSlots) (fun _ _ _ _ _ _ hmatch hi => ?_) h
    ⟨.refl _, .refl _⟩
  have hextends := matchWithin_extends hmatch
  exact ⟨hi.1.trans hextends.typeSlots, hi.2.trans hextends.methodSlots⟩

end Evaluate

/-! ### The types in complete slots -/

/-- Complete slots hold the types that are read off them. -/
theorem Slots.bound_of_values {slots : Slots} {types : List TypeId}
    (h : slots.values = some types) : slots.bound = types.map some := by
  unfold values at h
  generalize slots.bound = bound at h
  induction bound generalizing types with
  | nil =>
    cases h
    rfl
  | cons o bound ih =>
    rw [List.mapM_cons] at h
    obtain ⟨t, ho, h⟩ := Option.bind_eq_some_iff.mp h
    obtain ⟨rest, hrest, h⟩ := Option.bind_eq_some_iff.mp h
    obtain rfl := Option.some.inj h
    rw [ih hrest, List.map_cons, ← ho]
    rfl

theorem Slots.get?_of_values {slots : Slots} {types : List TypeId} (h : slots.values = some types)
    {t : TypeId} (ht : t ∈ types) : ∃ k < slots.arity, slots.get? k = some t := by
  have hbound := bound_of_values h
  obtain ⟨k, hk⟩ := List.mem_iff_getElem?.mp ht
  refine ⟨k, ?_, ?_⟩
  · rw [arity, hbound, List.length_map]
    exact (List.getElem?_eq_some_iff.mp hk).1
  · rw [get?, hbound, List.getElem?_map, hk]
    rfl

/-- Slots that hold each of some types hold these types. -/
theorem Slots.values_of_get? {slots : Slots} {types : List TypeId}
    (harity : slots.arity = types.length) (h : ∀ k < types.length, slots.get? k = types[k]?) :
    slots.values = some types := by
  have hbound : slots.bound = types.map some := by
    refine List.ext_getElem (by rw [List.length_map]; exact harity) fun k hk hk' => ?_
    rw [List.length_map] at hk'
    have hget := h k hk'
    rw [get?, List.getElem?_eq_getElem hk, List.getElem?_eq_getElem hk', Option.join_some] at hget
    rw [List.getElem_map, hget]
  rw [values, hbound]
  clear hbound h harity
  induction types with
  | nil => rfl
  | cons t types ih =>
    rw [List.map_cons, List.mapM_cons, ih]
    rfl

section Values

variable {s : Store} {inferred : Inferred} (h : inferred.HeldBy s) {types : List TypeId}
  {t : TypeId}

include h

theorem Inferred.HeldBy.of_typeValues {d : TypeId}
    (howner : inferred.typeSlots.owner = some (.type d))
    (hvalues : inferred.typeSlots.values = some types) (ht : t ∈ types) : s.Holds t := by
  obtain ⟨k, hk, hget⟩ := Slots.get?_of_values hvalues ht
  refine h { owner := .type d, position := k } t ?_ hget
  simp [Inference.owns, Slots.owns, Inferred.start, howner, hk]

theorem Inferred.HeldBy.of_methodValues {m : MethodToken}
    (howner : inferred.methodSlots.owner = some (.method m))
    (hvalues : inferred.methodSlots.values = some types) (ht : t ∈ types) : s.Holds t := by
  obtain ⟨k, hk, hget⟩ := Slots.get?_of_values hvalues ht
  refine h { owner := .method m, position := k } t ?_ hget
  simp [Inference.owns, Slots.owns, Inferred.start, howner, hk]

end Values

end CallSite
