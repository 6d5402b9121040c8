import CallSite.Proofs.Match.Specific
import CallSite.Proofs.Resolve.Answer
import CallSite.Proofs.Type.Check

/-!
# The more specific overload

Of two overloads that take all arguments of a call by value, the one with the more specific
parameters ranks first (`CallSite.more_specific_ranks_first`). Such overloads differ in nothing but
their conversions, and these are added up argument by argument.

What is more specific is `Store.MoreSpecific`: the counters tell a parameter that has the type of
the argument from one that is counted at all, and a parameter from one of its bases. They do not
tell a type from its nullable type, and they prefer any interface of an argument to any of its bases
(`CallSite.conversion_ties_and_outranks`).
-/

namespace CallSite

/-- A weight without what is not compared. -/
def Weight.ranked (w : Weight) : Weight :=
  { w with identical := 0 }

theorem Weight.compare_ranked (a b : Weight) : compare a.ranked b.ranked = compare a b := rfl

/-- **A member takes all arguments by value**: it is no open generic method, and as many parameters
as there are arguments take a value of a plain type. -/
structure Member.TakesByValue (m : Member) (s : Store) (count : Nat) : Prop where
  /-- It has no generic parameters left. -/
  notOpen : m.openMethod = none
  /-- It has a parameter for each argument. -/
  length_eq : m.parameters.length = count
  /-- No parameter is only written. -/
  notOut : ∀ p ∈ m.parameters, p.isOut = false
  /-- Their types are plain. -/
  plain : ∀ p ∈ m.parameters, s.Plain p.type

/-- The types of the parameters. -/
def Member.parameterTypes (m : Member) : List TypeId :=
  m.parameters.map Parameter.type

/-! ### What is counted -/

section Fit

variable {s : Store} (hs : s.WellFormed) {depth : Nat} {names : NameComparison}

include hs

/-- A plain type is not counted as an open one. -/
theorem countOpen_plain {p : Parameter} (hp : s.Plain p.type) (hheld : s.Holds p.type)
    (w : Weight) : countOpen s p w = w := by
  have hinner : s.stripByRef p.type = p.type := by
    have hbyRef := hp.noReference.not_byRef
    unfold Store.stripByRef
    split
    case h_1 e he =>
      exact absurd he (TypeInfo.shape_ne_reference hbyRef)
    case h_2 => rfl
  have hclosed : ¬ s.isOpen p.type := fun hopen => by
    obtain ⟨q, hq⟩ := (hs.isOpen_iff hheld).mp hopen
    exact hp.closed q hq
  rw [countOpen, hinner]
  exact if_neg hclosed

/-- **A parameter of a plain type** is supplied and infers nothing. -/
theorem fitParameter_plain {arguments : Arguments} {p : Parameter} (hp : s.Plain p.type)
    (hheld : s.Holds p.type) (hout : p.isOut = false) {k : Nat} {a : Argument}
    (ha : arguments.positional[k]? = some a) {source : TypeId} (htype : a.type = some source)
    {fit fit' : Fit × Inferred}
    (h : fitParameter s depth names arguments fit (p, k) = some fit') :
    fit'.2 = fit.2 ∧ ∃ cost, s.Converts source p.type cost ∧
      fit'.1.weight.ranked = fit.1.weight.ranked.supply cost := by
  have hbyRef : p.isByRef s = false := hp.noReference.not_byRef
  unfold fitParameter at h
  dsimp only at h
  rw [supplied?, ha] at h
  obtain ⟨⟨w, inferred⟩, hfit, rfl⟩ := Option.map_eq_some_iff.mp h
  rw [fitArgument, htype] at hfit
  obtain ⟨j, hj, hw⟩ := Option.map_eq_some_iff.mp hfit
  rw [argumentVariance, hout, hbyRef] at hj
  obtain ⟨cost, hcost, rfl⟩ := hp.converts hs hj
  obtain ⟨hw, rfl⟩ := Prod.mk.inj hw
  refine ⟨rfl, cost, hcost, ?_⟩
  rw [← hw, countOpen_plain hs hp hheld, countIdentical, Inferred.start, MatchCost.zero_add]
  split <;> rfl

/-- **All parameters of plain types** are supplied and infer nothing. -/
theorem fold_fitParameter_plain {arguments : Arguments} {parameters : List Parameter}
    (hplain : ∀ p ∈ parameters, s.Plain p.type) (hheld : ∀ p ∈ parameters, s.Holds p.type)
    (hout : ∀ p ∈ parameters, p.isOut = false) {k : Nat} {sources : List TypeId}
    (hpositional : (arguments.positional.drop k).map Argument.type = sources.map some)
    (hlength : parameters.length = sources.length) {fit fit' : Fit × Inferred}
    (h : (parameters.zipIdx k).foldlM (fitParameter s depth names arguments) fit = some fit') :
    fit'.2 = fit.2 ∧ ∃ costs : List MatchCost,
      s.ConvertsAll sources (parameters.map Parameter.type) costs ∧
      fit'.1.weight.ranked = costs.foldl Weight.supply fit.1.weight.ranked := by
  induction parameters generalizing k sources fit with
  | nil =>
    obtain rfl := List.length_eq_zero_iff.mp hlength.symm
    obtain rfl := Option.some.inj h
    exact ⟨rfl, [], .nil, rfl⟩
  | cons p parameters ih =>
    cases sources with
    | nil => cases hlength
    | cons source sources =>
      rw [List.zipIdx_cons, List.foldlM_cons] at h
      obtain ⟨fit₁, hfirst, h⟩ := Option.bind_eq_some_iff.mp h
      obtain ⟨a, rest, hdrop, htype, hrest⟩ := List.map_eq_cons_iff.mp hpositional
      have ha : arguments.positional[k]? = some a := by
        rw [← Nat.add_zero k, ← List.getElem?_drop, hdrop]
        rfl
      obtain ⟨hsame, cost, hcost, hweight⟩ := fitParameter_plain hs (hplain p List.mem_cons_self)
        (hheld p List.mem_cons_self) (hout p List.mem_cons_self) ha htype hfirst
      have hnext : (arguments.positional.drop (k + 1)).map Argument.type = sources.map some := by
        rw [← List.tail_drop, hdrop]
        exact hrest
      obtain ⟨hsame', costs, hcosts, hweight'⟩ :=
        ih (fun p hp => hplain p (List.mem_cons_of_mem _ hp))
          (fun p hp => hheld p (List.mem_cons_of_mem _ hp))
          (fun p hp => hout p (List.mem_cons_of_mem _ hp)) hnext (Nat.succ.inj hlength) h
      refine ⟨hsame'.trans hsame, cost :: costs, .cons hcost hcosts, ?_⟩
      rw [hweight', hweight, List.foldl_cons]

end Fit

/-! ### The whole evaluation -/

/-- The match of the value that is asked for, where nothing but the slots of the queried definition
is left to infer. -/
def matchedValue (s : Store) (depth : Nat) (query : Query) (valueType : Option TypeId)
    (typeSlots : Slots) : Option Inference :=
  match query.valueType with
  | none => some { typeSlots := typeSlots }
  | some expected =>
    valueType.bind fun actual =>
      s.matches depth expected query.variance actual { typeSlots := typeSlots }

/-- The arguments of a call are positional, and have these types. -/
def Arguments.HaveTypes (arguments : Arguments) (sources : List TypeId) : Prop :=
  arguments.positional.map Argument.type = sources.map some ∧ arguments.named = []

/-- A method without open parameters takes no method arguments. -/
theorem eq_of_matchMethodArguments {s : Store} {depth : Nat} {query : Query} {member : Member}
    {i j : Inference} (hnot : member.openMethod = none)
    (h : matchMethodArguments s depth query member i = some j) : j = i := by
  unfold matchMethodArguments at h
  rw [hnot] at h
  split at h
  · exact (Option.some.inj h).symm
  · cases h

/-- The value adds what its match costs, which is nothing if no value is asked for. -/
theorem exists_matchedValue {s : Store} {depth : Nat} {query : Query} {member : Member}
    {typeSlots : Slots} {fit : Fit} {valued : Fit × Inferred}
    (h : matchValue s depth query member (fit, { typeSlots := typeSlots }) = some valued) :
    ∃ j, matchedValue s depth query member.valueType typeSlots = some j ∧
      valued.1.weight = fit.weight.absorb j.cost ∧ valued.2 = j.inferred := by
  unfold matchedValue
  obtain ⟨hnone, rfl⟩ | ⟨expected, actual, j, hexpected, hactual, hj, rfl⟩ :=
    exists_of_matchValue h
  · rw [hnone]
    exact ⟨_, rfl, rfl, rfl⟩
  · rw [hexpected, hactual]
    exact ⟨j, hj, rfl, rfl⟩

section Evaluate

variable {s : Store} (hs : s.WellFormed) {depth : Nat} {names : NameComparison} {query : Query}
  {member : Member} {typeSlots : Slots} {fit : Fit} {inferred : Inferred} {sources : List TypeId}

include hs

/-- **What an overload weighs that takes all arguments by value**: its conversions, and what the
value that is asked for adds. -/
theorem exists_costs_of_evaluate (hmember : member.HeldBy s)
    (hvalue : member.TakesByValue s sources.length) (harguments : query.arguments.HaveTypes sources)
    (h : evaluate s depth names query member typeSlots = some (fit, inferred)) :
    ∃ costs j, s.ConvertsAll sources member.parameterTypes costs ∧
      matchedValue s depth query member.valueType typeSlots = some j ∧
      fit.weight.ranked =
        .ofCall costs j.cost (j.typeSlots.boundCount + j.methodSlots.boundCount) := by
  have hslots : methodSlots member = Slots.empty := by
    rw [methodSlots, Member.methodOwner, hvalue.notOpen]
    rfl
  obtain ⟨i, ⟨called, after⟩, valued, hi, hcalled, hvalued, rfl, rfl, -⟩ := exists_of_evaluate h
  rw [hslots] at hi
  obtain rfl := eq_of_matchMethodArguments hvalue.notOpen hi
  obtain ⟨rfl, costs, hcosts, hweight⟩ := fold_fitParameter_plain hs hvalue.plain
    (Member.heldBy_iff.mp hmember).2.1 hvalue.notOut (k := 0) harguments.1 hvalue.length_eq
    (Stepwise.foldlM_eq_some_iff.mpr (stepwise_of_fitParameters (fitParameters_of_fitCall hcalled)))
  obtain ⟨j, hj, hweighed, hinferred⟩ := exists_matchedValue hvalued
  refine ⟨costs, j, hcosts, hj, ?_⟩
  have hcalled' : called.weight.ranked = costs.foldl Weight.supply {} := hweight
  rw [Weight.ofCall, ← hcalled']
  simp only [Weight.ranked, hweighed, hinferred]
  rfl

end Evaluate

/-! ### Two overloads -/

/-- **The more specific overload ranks first.** Let two overloads be accepted that take all
arguments of a call by value, and let their values be of one type if a value is asked for. Where
each parameter of the first is as specific as that of the second, and some parameter is more
specific, the first ranks before the second. An overload whose parameters have the types of the
arguments is never beaten, and ranks with another one only if the parameters of that have these
types or their nullable types. -/
theorem more_specific_ranks_first {allowed : Store → Operation → Prop} {s s' : Store}
    (hreach : s.Reachable allowed) {resolver : Resolver} (hregistry : resolver.registry.HeldBy s)
    {t : TypeId} (ht : s.Holds t) {query : Query} (hquery : ∀ u ∈ query.types, s.Holds u)
    {found : List Accepted} (h : resolver.accepted t query s = .ok found s')
    {sources : List TypeId} (harguments : query.arguments.HaveTypes sources) {a b : Accepted}
    (ha : a ∈ found) (hb : b ∈ found) (hfirst : a.member.TakesByValue s' sources.length)
    (hsecond : b.member.TakesByValue s' sources.length)
    (hvalue : query.valueType = none ∨ a.member.valueType = b.member.valueType) :
    (Store.AtEach s'.AsSpecific sources a.member.parameterTypes b.member.parameterTypes →
      Store.AtSome s'.MoreSpecific sources a.member.parameterTypes b.member.parameterTypes →
      a.fit.weight.isBetter b.fit.weight) ∧
    (a.member.parameterTypes = sources → a.compareWeight b ≠ .gt ∧
      (a.compareWeight b = .eq → Store.AtEach
        (fun source _ q => q = source ∨ s'.nullableUnderlying q = some source) sources
        a.member.parameterTypes b.member.parameterTypes)) := by
  obtain ⟨hgrown, hfound, -⟩ :=
    (settles_accepted resolver hreach.wellFormed ht hregistry hquery).of_ok h
  have hs' := hgrown.wellFormed
  obtain ⟨_, -, hall⟩ := Resolver.exists_of_accepted h
  obtain ⟨costs, j, hcosts, hj, hweight⟩ := exists_costs_of_evaluate hs' (hfound a ha).member hfirst
    harguments (hall a ha).2
  obtain ⟨costs', j', hcosts', hj', hweight'⟩ := exists_costs_of_evaluate hs' (hfound b hb).member
    hsecond harguments (hall b hb).2
  have hsame : matchedValue s' resolver.depth query a.member.valueType (Resolver.typeSlots s t) =
      matchedValue s' resolver.depth query b.member.valueType (Resolver.typeSlots s t) := by
    rcases hvalue with hnone | heq
    · rw [matchedValue, matchedValue, hnone]
    · rw [heq]
  obtain rfl := Option.some.inj (hj.symm.trans (hsame.trans hj'))
  -- The weights compare as the sums of the conversions do.
  have hcompare : a.compareWeight b = Ord.compare (costs.map MatchCost.conversions).sum
      (costs'.map MatchCost.conversions).sum := by
    rw [Accepted.compareWeight, ← Weight.compare_ranked, hweight, hweight']
    exact Weight.compare_ofCall (hcosts.length_eq.trans hcosts'.length_eq.symm)
      (fun c hc => (List.mem_append.mp hc).elim (hcosts.free c) (hcosts'.free c)) _ _
  have hplain : ∀ p ∈ a.member.parameterTypes, s'.Plain p :=
    List.forall_mem_map.mpr hfirst.plain
  refine ⟨fun hspecific hmore => ?_, fun heq => ?_⟩
  · have hlt := (Store.sum_conversions hs' hplain hcosts hcosts' hspecific).2 hmore
    exact beq_iff_eq.mpr (hcompare.trans (compare_lt_iff_lt.mpr hlt))
  have hspecific : Store.AtEach s'.AsSpecific sources a.member.parameterTypes
      b.member.parameterTypes := fun k source p q hsource hp _ => by
    rw [heq, hsource] at hp
    exact .inr (.inl (Option.some.inj hp).symm)
  obtain ⟨hle, hlt⟩ := Store.sum_conversions hs' hplain hcosts hcosts' hspecific
  refine ⟨hcompare ▸ compare_gt_iff_gt.not.mpr (not_lt.mpr hle),
    fun htie k source p q hsource hp hq => ?_⟩
  by_contra hneither
  obtain ⟨hne, hnullable⟩ := not_or.mp hneither
  obtain rfl : source = p := by
    rw [heq, hsource] at hp
    exact Option.some.inj hp
  have hless := hlt ⟨k, source, source, q, hsource, hp, hq, .exact rfl hne hnullable⟩
  exact ne_of_lt hless (compare_eq_iff_eq.mp (hcompare.symm.trans htie))

/-! ### Overloads on shapes and numbers -/

/-- A run that makes the type of nullable numbers, and circles, which derive from shapes with an
interface. -/
def conversionRun : List Operation :=
  [.nullableOf Core.int32, .define "IShape" .interfaceKind [], .define "Shape" .classKind [],
    .addInterface ⟨29⟩ ⟨28⟩, .define "Circle" .classKind [], .setBase ⟨30⟩ ⟨29⟩]

/-- The store after that run. -/
def conversionStore : Store :=
  Store.initial.afterAll conversionRun

theorem reachable_conversionStore : conversionStore.Reachable fun _ _ => True :=
  .of_checkRun (fun _ _ => true) (fun _ _ _ _ _ => trivial) .initial (by decide +kernel)

theorem holds_conversionStore {u : TypeId} (hu : u.index < 31) : conversionStore.Holds u := by
  have hsize : conversionStore.size = 31 := by decide +kernel
  rw [Store.Holds, hsize]
  exact hu

theorem plain_conversionStore {u : TypeId} (hu : u.index < 31)
    (hopen : conversionStore.isOpen u = false) (hbyRef : (conversionStore.info u).isByRef = false)
    (hparts : conversionStore.parts u = []) : conversionStore.Plain u :=
  .of_leaf reachable_conversionStore.wellFormed.toFormed (holds_conversionStore hu) hopen hbyRef
    hparts

/-- A method of the root with parameters of some types. -/
def overload (name : String) (types : List TypeId) : Member :=
  .method name Core.object
    (types.zipIdx.map fun (t, k) => { position := k, name := none, type := t }) Core.void

/-- Two overloads for numbers, two for a shape, and two for a pair of shapes. -/
def conversionResolver : Resolver :=
  { registry := { members := #[overload "Put" [Core.int32], overload "Put" [⟨27⟩],
      overload "Draw" [⟨29⟩], overload "Draw" [⟨28⟩],
      overload "Move" [⟨30⟩, ⟨29⟩], overload "Move" [⟨29⟩, Core.object]] }
    depth := 40 }

/-- A call of a method with arguments of some types. -/
def callOf (name : String) (sources : List TypeId) : Query :=
  { kind := .method, name, arguments := { positional := sources.map .ofType } }

/-- **Two overloads for a call** are accepted, which take all arguments by value: their parameters
have these types, and nothing has to be made for them. -/
def AcceptedPair (name : String) (sources ps qs : List TypeId) (a b : Accepted) : Prop :=
  conversionResolver.accepted Core.object (callOf name sources) conversionStore =
    .ok [a, b] conversionStore ∧
  a.member.parameterTypes = ps ∧ b.member.parameterTypes = qs ∧
  ∀ m ∈ [a.member, b.member], m.openMethod = none ∧ m.parameters.length = sources.length ∧
    ∀ p ∈ m.parameters, p.isOut = false ∧ p.isByRef conversionStore = false

/-- The test for such a pair, with one more test for what it has. -/
def testPair (name : String) (sources ps qs : List TypeId) (test : Accepted → Accepted → Bool) :
    Bool :=
  succeedsWith (conversionResolver.accepted Core.object (callOf name sources)) conversionStore
    fun found s => match found with
      | [a, b] => s = conversionStore && a.member.parameterTypes = ps &&
        b.member.parameterTypes = qs && test a b && [a.member, b.member].all fun m =>
          m.openMethod = none ∧ m.parameters.length = sources.length ∧
            ∀ p ∈ m.parameters, p.isOut = false ∧ p.isByRef conversionStore = false
      | _ => false

theorem exists_of_testPair {name : String} {sources ps qs : List TypeId}
    {test : Accepted → Accepted → Bool} (h : testPair name sources ps qs test) :
    ∃ a b, AcceptedPair name sources ps qs a b ∧ test a b := by
  obtain ⟨found, s, hrun, h⟩ := exists_of_succeedsWith h
  split at h
  case h_1 a b =>
    simp only [Bool.and_eq_true, decide_eq_true_eq, List.all_eq_true] at h
    obtain ⟨⟨⟨⟨rfl, hps⟩, hqs⟩, htest⟩, hmembers⟩ := h
    exact ⟨a, b, ⟨hrun, hps, hqs, hmembers⟩, htest⟩
  case h_2 => cases h

/-- To move a circle by a circle, the overload for circles and shapes ranks first. -/
theorem more_specific_ranks_first_circle : ∃ a b,
    AcceptedPair "Move" [⟨30⟩, ⟨30⟩] [⟨30⟩, ⟨29⟩] [⟨29⟩, Core.object] a b ∧
      a.fit.weight.isBetter b.fit.weight := by
  have hmove : testPair "Move" [⟨30⟩, ⟨30⟩] [⟨30⟩, ⟨29⟩] [⟨29⟩, Core.object]
      (fun _ _ => true) := by decide +kernel
  obtain ⟨a, b, hpair, -⟩ := exists_of_testPair hmove
  refine ⟨a, b, hpair, ?_⟩
  obtain ⟨hrun, hps, hqs, hmembers⟩ := hpair
  have hregistry : conversionResolver.registry.HeldBy conversionStore := fun m hm u hu => by
    refine holds_conversionStore ?_
    revert u
    revert m
    decide
  have hquery : ∀ u ∈ (callOf "Move" [⟨30⟩, ⟨30⟩]).types, conversionStore.Holds u := fun u hu => by
    refine holds_conversionStore ?_
    revert u
    decide
  have hleaf : ∀ u ∈ ([⟨30⟩, ⟨29⟩, Core.object] : List TypeId), conversionStore.Plain u := by
    intro u hu
    obtain ⟨hheld, hopen, hbyRef, hparts⟩ : u.index < 31 ∧ conversionStore.isOpen u = false ∧
        (conversionStore.info u).isByRef = false ∧ conversionStore.parts u = [] := by
      revert u
      decide +kernel
    exact plain_conversionStore hheld hopen hbyRef hparts
  have htakes : ∀ m ∈ [a.member, b.member], (∀ u ∈ m.parameterTypes, u ∈
      ([⟨30⟩, ⟨29⟩, Core.object] : List TypeId)) → m.TakesByValue conversionStore 2 :=
    fun m hm htypes => ⟨(hmembers m hm).1, (hmembers m hm).2.1,
      fun p hp => ((hmembers m hm).2.2 p hp).1,
      fun p hp => hleaf _ (htypes _ (List.mem_map_of_mem hp))⟩
  have hshapes : conversionStore.MoreSpecific ⟨30⟩ ⟨30⟩ ⟨29⟩ :=
    .exact rfl (by decide) (by decide +kernel)
  have hroot : conversionStore.MoreSpecific ⟨30⟩ ⟨29⟩ Core.object := by
    refine .base (by decide +kernel) (by decide +kernel)
      ⟨40, Option.isSome_iff_exists.mp (by decide +kernel)⟩ ?_
    exact (hleaf ⟨29⟩ (by decide)).not_accepts reachable_conversionStore.wellFormed
      (by decide +kernel) (holds_conversionStore (by decide)) (by decide +kernel)
  have harguments : (callOf "Move" [⟨30⟩, ⟨30⟩]).arguments.HaveTypes [⟨30⟩, ⟨30⟩] := ⟨rfl, rfl⟩
  refine (more_specific_ranks_first reachable_conversionStore hregistry
    (holds_conversionStore (by decide)) hquery hrun harguments List.mem_cons_self
    (List.mem_cons_of_mem _ List.mem_cons_self) (htakes _ List.mem_cons_self ?_)
    (htakes _ (List.mem_cons_of_mem _ List.mem_cons_self) ?_) (.inl rfl)).1 ?_ ?_
  · rw [hps]
    decide
  · rw [hqs]
    decide
  · rw [hps, hqs]
    rintro (_ | _ | k) source p q hsource hp hq
    · cases hsource; cases hp; cases hq
      exact .inr (.inr hshapes)
    · cases hsource; cases hp; cases hq
      exact .inr (.inr hroot)
    · cases hsource
  · rw [hps, hqs]
    exact ⟨0, _, _, _, rfl, rfl, rfl, hshapes⟩

/-- **The counters do not follow specificity everywhere**: a number is passed to a parameter of its
own type and to one of its nullable type with the same weight, and a circle is passed to the
interface of shapes before it is passed to shapes, though nothing flows back. -/
theorem conversion_ties_and_outranks : conversionStore.Reachable (fun _ _ => True) ∧
    (∃ a b, AcceptedPair "Put" [Core.int32] [Core.int32] [⟨27⟩] a b ∧
      conversionStore.Accepts Core.int32 .contravariant ⟨27⟩ ∧
      ¬ conversionStore.Accepts ⟨27⟩ .contravariant Core.int32 ∧ a.compareWeight b = .eq) ∧
    ∃ a b, AcceptedPair "Draw" [⟨30⟩] [⟨29⟩] [⟨28⟩] a b ∧
      conversionStore.Accepts ⟨29⟩ .contravariant ⟨28⟩ ∧
      ¬ conversionStore.Accepts ⟨28⟩ .contravariant ⟨29⟩ ∧ b.compareWeight a = .lt := by
  have hobject : (conversionStore.info Core.object).base = none := by decide +kernel
  have hs := reachable_conversionStore.wellFormed
  have hput : testPair "Put" [Core.int32] [Core.int32] [⟨27⟩]
      (fun a b => a.compareWeight b = .eq) := by decide +kernel
  have hdraw : testPair "Draw" [⟨30⟩] [⟨29⟩] [⟨28⟩]
      (fun a b => b.compareWeight a = .lt) := by decide +kernel
  obtain ⟨a, b, hpair, htie⟩ := exists_of_testPair hput
  obtain ⟨a', b', hpair', hless⟩ := exists_of_testPair hdraw
  have haccepts : ∀ u v, (conversionStore.matches 40 u .contravariant v {}).isSome →
      conversionStore.Accepts u .contravariant v := fun u v h =>
    ⟨40, Option.isSome_iff_exists.mp h⟩
  have hint : conversionStore.Plain Core.int32 := plain_conversionStore (by decide)
    (by decide +kernel) (by decide +kernel) (by decide +kernel)
  have hshape : conversionStore.Plain ⟨29⟩ := plain_conversionStore (by decide)
    (by decide +kernel) (by decide +kernel) (by decide +kernel)
  refine ⟨reachable_conversionStore, ⟨a, b, hpair, haccepts _ _ (by decide +kernel), ?_,
    of_decide_eq_true htie⟩, ⟨a', b', hpair', haccepts _ _ (by decide +kernel), ?_,
    of_decide_eq_true hless⟩⟩
  · exact hint.not_accepts hs hobject (holds_conversionStore (by decide)) (by decide +kernel)
  · exact hshape.not_accepts hs hobject (holds_conversionStore (by decide)) (by decide +kernel)

end CallSite
