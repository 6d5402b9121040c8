import CallSite.Proofs.Match.Instance
import CallSite.Proofs.Member.Image
import CallSite.Proofs.Resolve.Addressed
import CallSite.Proofs.Resolve.Explicit
import CallSite.Proofs.Resolve.Supply
import CallSite.Proofs.Type.Check

/-!
# Whether the closed member takes the call

A call is matched against an open method, and the answer is the method with the inferred arguments
put in place of its parameters. The call addresses both in the same way, but it need not fit the
closed method: a bare parameter that is bound already takes what matches its type in either
direction, and null goes to a bare parameter whatever is bound to it. Everywhere else the match is
firm, and what the open parameter takes, the closed one takes (`CallSite.Parameter.FirmFor.takes`).

* `Accepted.closing` – what a winner is closed with.
* `Parameter.FirmFor` – a parameter that takes an argument takes it also when it is closed.
* `closed_member_takes` – which arguments of a resolved call the closed member takes, and that the
  call fits it if it takes the others as well.
* `Accepted.KeepsCall.out` – what an out parameter is given is among them after an orderly run.
-/

namespace CallSite

/-! ### Images of parameters -/

namespace Image

variable {s : Store} {σ : Substitution} {m c : TypeId}

/-- The reference is taken off a type and off its image. -/
theorem stripByRef (h : Image s σ.Sends m c)
    (hp : (s.info (s.stripByRef m)).isParameter = false) :
    Image s σ.Sends (s.stripByRef m) (s.stripByRef c) := by
  unfold Store.stripByRef at hp ⊢
  cases h with
  | parameter hshape =>
    rw [hshape] at hp
    dsimp only at hp
    exact absurd hshape (TypeInfo.shape_ne_parameter hp)
  | array hm hc he =>
    rw [TypeInfo.form_eq_array_iff.mp hm, TypeInfo.form_eq_array_iff.mp hc]
    exact .array hm hc he
  | reference hm hc he =>
    rw [TypeInfo.form_eq_reference_iff.mp hm, TypeInfo.form_eq_reference_iff.mp hc]
    exact he
  | named hm hc hhead hargs =>
    obtain ⟨hshape, -, -, hkind⟩ := TypeInfo.form_eq_named_iff.mp hm
    obtain ⟨hshape', -⟩ := TypeInfo.form_eq_named_iff.mp hc
    rw [hshape, hshape']
    rcases hkind with rfl | rfl | rfl <;> exact .named hm hc hhead hargs

/-- **Where null may be stored in a type with parts, it may be stored in the closed image.** -/
theorem isNullAssignable (h : Image s σ.Sends m c) (hs : s.WellFormed) (hsc : s.Scoped)
    (hc : s.Closed c) (hp : (s.info (s.stripByRef m)).isParameter = false)
    (hnull : s.isNullAssignable m) : s.isNullAssignable c := by
  have hinner := h.stripByRef hp
  have hclosed : s.Closed (s.stripByRef c) := by
    unfold Store.stripByRef
    split
    · exact (Store.inherited_closed hs hsc).target ‹_› hc
    · exact hc
  unfold Store.isNullAssignable at hnull ⊢
  dsimp only at hnull ⊢
  generalize s.stripByRef m = x at hp hnull hinner
  generalize s.stripByRef c = y at hclosed hinner
  cases hinner with
  | parameter hshape =>
    exact absurd hshape (TypeInfo.shape_ne_parameter hp)
  | array _ hy => rw [TypeInfo.form_eq_array_iff.mp hy]
  | reference _ hy => rw [TypeInfo.form_eq_reference_iff.mp hy]
  | named hx hy hhead hargs =>
    obtain ⟨hshape, -, -, hkind⟩ := TypeInfo.form_eq_named_iff.mp hx
    rw [hshape] at hnull
    rw [(TypeInfo.form_eq_named_iff.mp hy).1]
    rcases hkind with rfl | rfl | rfl
    · rfl
    · rfl
    · obtain ⟨u, hu⟩ := Option.isSome_iff_exists.mp hnull
      obtain ⟨u', hu', -⟩ :=
        (Image.named hx hy hhead hargs).nullableUnderlying hs.toFormed hclosed hu
      exact Option.isSome_iff_exists.mpr ⟨u', hu'⟩

end Image

/-! ### Firm parameters -/

/-- **A parameter is firm for an argument**: what makes it take the argument does not change when
the parameters of the method are replaced. -/
structure Parameter.FirmFor (p : Parameter) (s : Store) (σ : Substitution) (a : Argument) :
    Prop where
  /-- Null does not go to a bare parameter. -/
  null : a.type = none → (s.info (s.stripByRef p.type)).isParameter = false
  /-- The type of the argument mentions nothing that is replaced. -/
  avoids : ∀ u, a.type = some u → s.Avoids σ.replaces u
  /-- The match is firm. -/
  firm : ∀ u, a.type = some u → s.Firm σ (argumentVariance s p) p.type

section Parameters

variable {s : Store} {σ : Substitution} {p p' : Parameter} {a : Argument}

/-- Arguments flow into a firm parameter and into its closed image under the same variance. -/
theorem argumentVariance_of_firm (hfirm : s.Firm σ (argumentVariance s p) p.type)
    (himage : Image s σ.Sends p.type p'.type) (hout : p'.isOut = p.isOut) (hs : s.Formed) :
    argumentVariance s p' = argumentVariance s p := by
  unfold argumentVariance
  rw [hout]
  by_cases ho : p.isOut
  · rw [if_pos ho, if_pos ho]
  -- The variance depends on the type only in whether that is a reference, and a firm parameter
  -- which is none does not become one.
  suffices hbyRef : (s.info p'.type).isByRef = (s.info p.type).isByRef by
    rw [Parameter.isByRef, Parameter.isByRef, hbyRef]
  cases hshape : (s.info p.type).isByRef with
  | true =>
    unfold TypeInfo.isByRef at hshape
    split at hshape
    case h_1 e he =>
      obtain ⟨e', he', -⟩ :=
        (Image.reference_iff (TypeInfo.form_eq_reference_iff.mpr he)).mp himage
      rw [TypeInfo.isByRef, TypeInfo.form_eq_reference_iff.mp he']
    case h_2 => cases hshape
  | false =>
    have hv : argumentVariance s p = .contravariant := by
      rw [argumentVariance, if_neg ho, Parameter.isByRef, hshape, if_neg Bool.false_ne_true]
    rw [hv] at hfirm
    cases hfirm with
    | closed hclosed =>
      rw [himage.eq_of_avoids hs fun q _ hq => absurd hq (hclosed q), hshape]
    | reference he =>
      exact absurd he (TypeInfo.shape_ne_reference hshape)
    | widened hp hr => exact (himage.plain hp hr).2

variable (hs : s.WellFormed) (hsc : s.Scoped) (himage : Image s σ.Sends p.type p'.type)
  (hc : s.Closed p'.type)

include hs hsc himage hc

/-- **What a firm parameter takes, its closed image takes.** -/
theorem Parameter.FirmFor.takes (h : p.FirmFor s σ a) (hout : p'.isOut = p.isOut)
    (hnull : a.type = none → s.isNullAssignable p.type) (depth : Nat)
    (hmatch : ∀ u, a.type = some u → s.Holds u ∧
      ∃ i j, s.matches depth u (argumentVariance s p) p.type i = some j ∧ σ.Agrees j) :
    p'.Takes s a := by
  refine ⟨fun ha => himage.isNullAssignable hs hsc hc (h.null ha) (hnull ha), fun u ha => ?_⟩
  obtain ⟨hu, i, j, hj, hagrees⟩ := hmatch u ha
  rw [argumentVariance_of_firm (h.firm u ha) himage hout hs.toFormed]
  exact (matchWithin_closes hs hsc (matches_eq_some_iff.mp hj)).2 ⟨hu, h.avoids u ha⟩ hagrees
    (h.firm u ha) _ himage hc

end Parameters

/-! ### Closed parameters -/

section Closed

variable {s : Store} (hs : s.WellFormed) (hsc : s.Scoped) {depth : Nat} {names : NameComparison}
  {arguments : Arguments}

include hs hsc

/-- A closed parameter is fitted without anything being inferred. -/
theorem eq_of_fitParameter {entry : Parameter × Nat} (hc : s.Closed entry.1.type)
    {fit fit' : Fit × Inferred} (h : fitParameter s depth names arguments fit entry = some fit') :
    fit'.2 = fit.2 := by
  unfold fitParameter at h
  dsimp only at h
  cases hsupplied : supplied? names arguments entry.2 entry.1 with
  | none =>
    rw [hsupplied] at h
    dsimp only at h
    split at h
    · cases h
      rfl
    · cases h
  | some given =>
    rw [hsupplied] at h
    obtain ⟨⟨w, inferred⟩, hfit, rfl⟩ := Option.map_eq_some_iff.mp h
    unfold fitArgument at hfit
    split at hfit
    · split at hfit
      · cases hfit
        rfl
      · cases hfit
    · obtain ⟨j, hj, hfit⟩ := Option.map_eq_some_iff.mp hfit
      cases hfit
      dsimp only
      rw [eq_of_closed hs hsc (matches_eq_some_iff.mp hj) hc]
      rfl

/-- **What closed parameters are given in a call that fits, they take.** -/
theorem takes_of_fit {parameters : List Parameter} (hc : ∀ p ∈ parameters, s.Closed p.type)
    {fit : Fit} {inferred : Inferred}
    (h : fitParameters s depth names parameters arguments {} = some (fit, inferred)) {k : Nat}
    {p : Parameter} (hp : parameters[k]? = some p) {a : Argument}
    (ha : arguments.given? names (p, k) = some a) : p.Takes s a := by
  obtain ⟨⟨a, source⟩, hsupplied, rfl⟩ := Option.map_eq_some_iff.mp ha
  obtain ⟨hnull, htype⟩ := exists_match_of_fitParameters h hp hsupplied
  refine ⟨hnull, fun t ht => ?_⟩
  obtain ⟨x, j, hbefore, hj, -⟩ := htype t ht
  have hx : x.2 = {} := hbefore.keeps (P := fun x => x.2 = {}) (fun entry hentry y z hstep hy =>
    (eq_of_fitParameter hs hsc (hc entry.1 (List.fst_mem_of_mem_zipIdx
      (List.mem_of_mem_take hentry))) hstep).trans hy) rfl
  rw [hx] at hj
  exact ⟨depth, j, hj⟩

end Closed

/-! ### The winner -/

/-- **What a winner is closed with**: an open method with the arguments that were inferred for it,
and any other member with nothing. -/
def Accepted.closing (best : Accepted) : Substitution :=
  match best.member.openMethod, best.inferred.methodSlots.values with
  | some token, some arguments => .forMethod token arguments
  | _, _ => {}

/-- What a winner is closed with leaves the parameters of types. -/
theorem Accepted.lookup_closing_of_type (best : Accepted) {p : GenericParameter} {d : TypeId}
    (hp : p.owner = .type d) : best.closing.lookup p = none := by
  unfold closing
  split
  · rw [Substitution.lookup_of_type hp]
    rfl
  · exact Substitution.lookup_of_isEmpty rfl p

/-- What a winner is closed with is what was inferred for it. -/
theorem Accepted.agrees_closing (best : Accepted) : best.closing.Agrees best.inferred.start := by
  intro p b b' _ hb hl
  unfold closing at hl
  split at hl
  case h_1 token arguments _ hvalues =>
    cases hp : p.owner with
    | type d =>
      rw [Substitution.lookup_of_type hp] at hl
      cases hl
    | method m =>
      rw [Inference.bound?, hp] at hb
      dsimp only [Inferred.start] at hb
      rw [Slots.get?, Slots.bound_of_values hvalues, List.getElem?_map] at hb
      -- The arguments are the values of the slots, so the slot and the substitution read the same
      -- list.
      by_cases howner : p.owner = .method token
      · rw [Substitution.lookup_forMethod howner] at hl
        rw [hl] at hb
        exact Option.some.inj hb
      · rw [Substitution.lookup_forMethod_of_ne howner] at hl
        cases hl
  case h_2 =>
    rw [Substitution.lookup_of_isEmpty rfl] at hl
    cases hl

/-- **The member of an answer is the image of the winner** under what it is closed with. -/
theorem Accepted.imageOf_closing {best : Accepted} {t : TypeId} {s s' : Store} {answer : Resolution}
    (hs : s.WellFormed) (hbest : best.FoundOn t s)
    (h : Resolver.finish t best s = .ok answer s') :
    best.member.ImageOf s' best.closing answer.member ∧ answer.member.HeldBy s' := by
  obtain ⟨-, -, -, ⟨token, arguments, hopen, hvalues, hclose⟩ | ⟨hnone, hmember, rfl⟩⟩ :=
    Resolver.finish_cases h
  · obtain ⟨-, hheld, himage⟩ := imageOf_of_close hs hbest.member
      (hbest.holds_methodArguments hopen hvalues) hopen hclose
    rw [closing, hopen, hvalues]
    exact ⟨himage, hheld⟩
  · have hclosing : best.closing = {} := by
      unfold closing
      split
      case h_1 hopen hvalues =>
        rw [hopen, hvalues] at hnone
        exact absurd hnone (by simp)
      case h_2 => rfl
    rw [hclosing, hmember]
    exact ⟨.of_isEmpty hs.toFormed rfl _, hbest.member⟩

/-- **What is inferred before the parameter at an index is fitted**, from the method arguments and
from what the parameters before it are given. -/
def inferredBefore (s : Store) (depth : Nat) (names : NameComparison) (query : Query)
    (member : Member) (typeSlots : Slots) (k : Nat) : Option Inferred :=
  (matchMethodArguments s depth query member
      { typeSlots := typeSlots, methodSlots := methodSlots member }).bind fun i =>
    ((member.parameters.zipIdx.take k).foldlM (fitParameter s depth names query.arguments)
      ({}, i.inferred)).map Prod.snd

section Evaluate

variable {s : Store} {depth : Nat} {names : NameComparison} {query : Query} {member : Member}

/-- **What an accepted candidate was given matched its parameters**, each after those before it, and
what that bound is among what was inferred in the end. -/
theorem exists_match_of_evaluate {slots : Slots} {fit : Fit} {inferred : Inferred}
    (h : evaluate s depth names query member slots = some (fit, inferred)) {k : Nat} {p : Parameter}
    (hp : member.parameters[k]? = some p) {a : Argument}
    (ha : query.arguments.given? names (p, k) = some a) :
    (a.type = none → s.isNullAssignable p.type) ∧ ∀ u, a.type = some u → ∃ before j,
      inferredBefore s depth names query member slots k = some before ∧
      s.matches depth u (argumentVariance s p) p.type before.start = some j ∧
      j.Extends inferred.start := by
  obtain ⟨i, called, valued, hi, hcall, hvalue, -, rfl, -⟩ := exists_of_evaluate h
  obtain ⟨⟨a, source⟩, hsupplied, rfl⟩ := Option.map_eq_some_iff.mp ha
  obtain ⟨hnull, htype⟩ :=
    exists_match_of_fitParameters (fitParameters_of_fitCall hcall) hp hsupplied
  refine ⟨hnull, fun u hu => ?_⟩
  obtain ⟨x, j, hbefore, hj, hext⟩ := htype u hu
  refine ⟨x.2, j, ?_, hj, hext.trans ?_⟩
  · rw [inferredBefore, hi, Option.bind_some, Stepwise.foldlM_eq_some_iff.mpr hbefore]
    rfl
  · exact matchValue_keeps (P := fun inferred => called.2.start.Extends inferred.start)
      (fun _ _ _ _ _ _ hmatch hi =>
        have hextends := matchWithin_extends hmatch
        hi.trans ⟨hextends.typeSlots, hextends.methodSlots⟩) hvalue (.refl _)

/-- Before the first parameter nothing is inferred, if no method arguments are given. -/
theorem bound?_of_inferredBefore_zero {t : TypeId} {before : Inferred}
    (hnone : query.methodArguments = [])
    (h : inferredBefore s depth names query member (Resolver.typeSlots s t) 0 = some before)
    (q : GenericParameter) : before.start.bound? q = none := by
  rw [inferredBefore, matchMethodArguments, hnone] at h
  obtain rfl := Option.some.inj h
  unfold Inference.bound?
  cases q.owner with
  | type => exact get?_typeSlots _
  | method => exact get?_methodSlots _

end Evaluate

/-! ### The closed member -/

/-- **An argument goes to a parameter** of an open member, and to what becomes of it in the closed
one. -/
structure Arguments.GoesTo (arguments : Arguments) (names : NameComparison) (m m' : Member)
    (k : Nat) (a : Argument) (p p' : Parameter) : Prop where
  /-- The open parameter stands at an index. -/
  opened : m.parameters[k]? = some p
  /-- The closed one stands there as well. -/
  closed : m'.parameters[k]? = some p'
  /-- This is what it is given. -/
  given : arguments.given? names (p', k) = some a

namespace Arguments.GoesTo

variable {arguments : Arguments} {names : NameComparison} {s : Store} {σ : Substitution}
  {m m' : Member} {k : Nat} {a : Argument} {p p' : Parameter}

theorem mem_types (h : arguments.GoesTo names m m' k a p p') {u : TypeId} (hu : a.type = some u) :
    u ∈ arguments.types := by
  obtain ⟨given, hsupplied, rfl⟩ := Option.map_eq_some_iff.mp h.given
  exact Arguments.mem_types (mem_of_supplied? hsupplied) hu

variable (himage : m.ImageOf s σ m')

include himage

/-- Each parameter of the closed member comes from one of the open member. -/
theorem exists_opened (hp' : m'.parameters[k]? = some p')
    (ha : arguments.given? names (p', k) = some a) :
    ∃ p, arguments.GoesTo names m m' k a p p' := by
  obtain ⟨hlt, -⟩ := List.getElem?_eq_some_iff.mp hp'
  exact ⟨_, List.getElem?_eq_getElem (himage.parameters.length_eq ▸ hlt), hp', ha⟩

/-- What becomes of a parameter differs from it in its type only, and that is an image. -/
theorem image (h : arguments.GoesTo names m m' k a p p') :
    p.Alike p' ∧ Image s σ.Sends p.type p'.type := by
  obtain ⟨hlt, rfl⟩ := List.getElem?_eq_some_iff.mp h.opened
  obtain ⟨hlt', rfl⟩ := List.getElem?_eq_some_iff.mp h.closed
  exact List.Forall₂.get himage.parameters hlt hlt'

/-- The open parameter is given the same argument. -/
theorem given_opened (h : arguments.GoesTo names m m' k a p p') :
    arguments.given? names (p, k) = some a := by
  rw [← h.given, Arguments.given?, Arguments.given?, (h.image himage).1.supplied?_eq]

end Arguments.GoesTo

section Closing

variable {s : Store} {depth : Nat} {names : NameComparison} {query : Query} {slots : Slots}
  {best : Accepted} {m' : Member} (hs : s.WellFormed) (hsc : s.Scoped)
  (hquery : ∀ u ∈ query.types, s.Holds u)
  (heval : evaluate s depth names query best.member slots = some (best.fit, best.inferred))
  (himage : best.member.ImageOf s best.closing m') (hclosed : ∀ p ∈ m'.parameters, s.Closed p.type)
  {k : Nat} {a : Argument} {p p' : Parameter}
  (hgoes : query.arguments.GoesTo names best.member m' k a p p')

include hs hsc hquery heval himage hclosed hgoes

/-- **What a firm parameter of the winner is given, the closed one takes.** -/
theorem takes_of_firm (hfirm : p.FirmFor s best.closing a) : p'.Takes s a := by
  obtain ⟨halike, htype⟩ := hgoes.image himage
  obtain ⟨hnull, hmatch⟩ := exists_match_of_evaluate heval hgoes.opened (hgoes.given_opened himage)
  refine hfirm.takes hs hsc htype (hclosed p' (List.mem_of_getElem? hgoes.closed)) halike.isOut_eq
    hnull depth fun u hu => ⟨hquery u ?_, ?_⟩
  · exact List.mem_append_left _ (List.mem_append_right _ (hgoes.mem_types hu))
  · obtain ⟨before, j, -, hj, hext⟩ := hmatch u hu
    exact ⟨before.start, j, hj, Substitution.Agrees.of_extends best.agrees_closing hext⟩

/-- **What a bare parameter of the winner is given**, the closed one takes, or the parameter was
bound before and its closed image is matched in one of two directions. -/
theorem takes_or_either_of_bare {u : TypeId} (hu : a.type = some u)
    (havoids : s.Avoids best.closing.replaces u) {q : GenericParameter}
    (hbare : (s.info (s.stripByRef p.type)).shape = .parameter q) :
    p'.Takes s a ∨ (∃ before, inferredBefore s depth names query best.member slots k = some before ∧
        (before.start.bound? q).isSome) ∧
      (s.Accepts u (argumentVariance s p) p'.type ∨
        s.Accepts u (argumentVariance s p).inverse p'.type) := by
  obtain ⟨-, htype⟩ := hgoes.image himage
  obtain ⟨-, hmatch⟩ := exists_match_of_evaluate heval hgoes.opened (hgoes.given_opened himage)
  obtain ⟨before, j, hbefore, hj, hext⟩ := hmatch u hu
  have hheld : s.Holds u := hquery u
    (List.mem_append_left _ (List.mem_append_right _ (hgoes.mem_types hu)))
  refine (accepts_of_bare hs hsc (matches_eq_some_iff.mp hj) ⟨hheld, havoids⟩
    (Substitution.Agrees.of_extends best.agrees_closing hext) htype
    (hclosed p' (List.mem_of_getElem? hgoes.closed)) hbare).imp (fun hall => ?_) fun heither =>
      ⟨⟨before, hbefore, heither.1⟩, heither.2⟩
  refine ⟨fun hnone => absurd (hu.symm.trans hnone) (Option.some_ne_none u), fun u' hu' => ?_⟩
  obtain rfl := Option.some.inj (hu.symm.trans hu')
  exact hall _

end Closing

/-- **A call is kept when its winner is closed**, but for what bare parameters are given. -/
structure Accepted.KeepsCall (best : Accepted) (resolver : Resolver) (query : Query)
    (names : NameComparison) (answer : Resolution) (s : Store) : Prop where
  /-- What a firm parameter is given, the closed one takes. -/
  firm : ∀ {k a p p'}, query.arguments.GoesTo names best.member answer.member k a p p' →
    p.FirmFor s best.closing a → p'.Takes s a
  /-- What a bare parameter is given, the closed one takes; or the parameter was bound before, and
  what it is given matches the closed one in one of two directions. -/
  bare : ∀ {k a p p' u q}, query.arguments.GoesTo names best.member answer.member k a p p' →
    a.type = some u → s.Avoids best.closing.replaces u →
      (s.info (s.stripByRef p.type)).shape = .parameter q → p'.Takes s a ∨
        (∃ before, inferredBefore s resolver.depth names query best.member
            (Resolver.typeSlots s answer.queriedType) k = some before ∧
          (before.start.bound? q).isSome) ∧
        (s.Accepts u (argumentVariance s p) p'.type ∨
          s.Accepts u (argumentVariance s p).inverse p'.type)
  /-- The call fits the closed member, with the sources of the answer, if that takes whatever else
  was given. -/
  fits : (∀ {k a p p'}, query.arguments.GoesTo names best.member answer.member k a p p' →
      ¬ p.FirmFor s best.closing a → p'.Takes s a) →
    ∃ n, ∀ depth, n ≤ depth → ∃ fit,
      fitParameters s depth names answer.member.parameters query.arguments {} = some (fit, {}) ∧
        fit.sources = answer.fit.sources

/-- **The closed member takes a resolved call**, as far as parameters are firm. -/
theorem closed_member_takes {allowed : Store → Operation → Prop} {s s' : Store}
    (hreach : s.Reachable allowed) (hscoped : s.Scoped) {resolver : Resolver}
    (hregistry : resolver.registry.HeldBy s) {t : TypeId} (ht : s.Holds t) {query : Query}
    (hquery : query.HeldBy s) {answer : Resolution}
    (h : resolver.tryResolve t query s = .ok (some answer) s')
    (hclosed : ∀ p ∈ answer.member.parameters, s'.isOpen p.type = false) :
    ∃ best, resolver.choose answer.queriedType query s' = .ok (some best) s' ∧
      Resolver.finish answer.queriedType best s' = .ok answer s' ∧
      best.KeepsCall resolver query (resolver.options.comparison query.arguments) answer s' := by
  obtain ⟨best, arguments, happends, -, hbest, hchoose, hfinish⟩ :=
    Resolver.exists_winner_of_tryResolve hreach.wellFormed hregistry ht hquery h
  -- The choice does not read the type arguments, which the query has lost on a constructed type.
  replace hchoose : resolver.choose answer.queriedType query s' = .ok (some best) s' := hchoose
  have hs := happends.wellFormed
  have hsc := happends.keeps_scoped hscoped
  have hheld : ∀ u ∈ query.types, s'.Holds u := fun u hu => happends.holds (hquery.1 u hu)
  obtain ⟨-, -, -, heval⟩ := Resolver.exists_of_choose hchoose
  obtain ⟨himage, hmember⟩ := best.imageOf_closing hs hbest hfinish
  have hclosed' : ∀ p ∈ answer.member.parameters, s'.Closed p.type := fun p hp =>
    hs.not_mentions_of_not_isOpen ((Member.heldBy_iff.mp hmember).2.1 p hp) (hclosed p hp)
  refine ⟨best, hchoose, hfinish, takes_of_firm hs hsc hheld heval himage hclosed',
    fun hgoes hu havoids hbare => takes_or_either_of_bare hs hsc hheld heval himage hclosed' hgoes
      hu havoids hbare, fun hrest => ?_⟩
  -- The answer addresses its parameters already; what is left is that each of them takes its
  -- argument.
  refine exists_fit_of_takes (Resolver.addresses_of_tryResolve h) fun k p' hp' a ha => ?_
  obtain ⟨p, hgoes⟩ := Arguments.GoesTo.exists_opened himage hp' ha
  by_cases hfirm : p.FirmFor s' best.closing a
  · exact takes_of_firm hs hsc hheld heval himage hclosed' hgoes hfirm
  · exact hrest hgoes hfirm

/-- **What an out parameter is given, the closed one takes**, in a store that an orderly run leads
to and in which no reference stands above a type. The parameter, or what it refers to, must have
parts of its own. -/
theorem Accepted.KeepsCall.out {best : Accepted} {resolver : Resolver} {query : Query}
    {names : NameComparison} {answer : Resolution} {s : Store}
    (h : best.KeepsCall resolver query names answer s)
    (hreach : s.Reachable fun s op => op.Orderly s ∧ op.LeavesMade s)
    (href : ∀ t, ∀ u ∈ (s.info t).above, (s.info u).isByRef = false) {k : Nat} {a : Argument}
    {p p' : Parameter} (hgoes : query.arguments.GoesTo names best.member answer.member k a p p')
    (havoids : ∀ u, a.type = some u → s.Avoids best.closing.replaces u) (hout : p.isOut)
    (hparameter : (s.info (s.stripByRef p.type)).isParameter = false)
    (hbyRef : (s.info (s.stripByRef p.type)).isByRef = false) : p'.Takes s a := by
  have hdown : s.HandsDown best.closing :=
    (hreach.mono fun _ _ h => h.1).orderly_store.handsDown hreach.wellFormed hreach.complete_store
      (fun hu => href _ _ hu) best.lookup_closing_of_type
  refine h.firm hgoes ⟨fun _ => hparameter, havoids, fun _ _ => ?_⟩
  rw [argumentVariance, if_pos hout]
  have hnarrowed : s.Firm best.closing .covariant (s.stripByRef p.type) :=
    .narrowed hparameter hbyRef hdown
  unfold Store.stripByRef at hnarrowed
  split at hnarrowed
  case h_1 element helement => exact .reference helement hnarrowed
  case h_2 => exact hnarrowed

/-! ### A method whose parameter is met twice -/

open Operation in
/-- A run that makes the parameter of a generic method, and what is comparable with it. -/
def pickRun : List Operation :=
  [.newMethod, .methodParameters ⟨0⟩ ["T"], .construct Core.equatable [⟨27⟩]]

/-- The store after that run. -/
def pickStore : Store :=
  Store.initial.afterAll pickRun

theorem reachable_pickStore : pickStore.Reachable fun s op => op.Scoped s :=
  .of_scopedRun (by decide +kernel)

/-- A generic method with a bare parameter and another one. -/
def pickMethod (second : TypeId) : Member :=
  (Member.method "Pick" Core.object [{ position := 0, name := none, type := ⟨27⟩ },
    { position := 1, name := none, type := second }] Core.void).withGenericMethod ⟨0⟩ [⟨27⟩]

/-- Types on which that method is all there is. -/
def pickResolver (second : TypeId) : Resolver :=
  { registry := { members := #[pickMethod second] }, depth := 30 }

/-- A call with a text and something else. -/
def pickQuery (second : TypeId) : Query :=
  { kind := .method, name := "Pick"
    arguments := { positional := [.ofType Core.string, .ofType second] } }

theorem holds_pickStore {t : TypeId} (h : t.index < 29) : pickStore.Holds t :=
  Nat.lt_of_lt_of_eq h (by decide +kernel)

theorem heldBy_pickResolver {second : TypeId} (h : second.index < 29) :
    (pickResolver second).registry.HeldBy pickStore := by
  intro m hm t ht
  obtain rfl := List.mem_singleton.mp hm
  have htypes : (pickMethod second).types = [Core.object, ⟨27⟩, second, Core.void, ⟨27⟩] := rfl
  rw [htypes] at ht
  simp only [List.mem_cons, List.not_mem_nil, or_false] at ht
  rcases ht with rfl | rfl | rfl | rfl | rfl
  all_goals exact holds_pickStore (by first | exact h | decide)

theorem heldBy_pickQuery {second : TypeId} (h : second.index < 29) :
    (pickQuery second).HeldBy pickStore := by
  refine ⟨fun t ht => ?_, by rintro u ⟨⟩⟩
  rcases List.mem_pair.mp ht with rfl | rfl
  · exact holds_pickStore (by decide)
  · exact holds_pickStore h

/-- A text and what is comparable with it: the second parameter is firm, and the first one is met
before it is bound. So the method on texts takes the call. -/
theorem closed_member_takes_text :
    ∃ answer, (pickResolver ⟨28⟩).tryResolve Core.object (pickQuery Core.string) pickStore =
        .ok (some answer) pickStore ∧
      answer.member.parameters.map Parameter.type = [Core.string, ⟨23⟩] ∧
      ∃ n, ∀ depth, n ≤ depth → ∃ fit, fitParameters pickStore depth .caseSensitive
          answer.member.parameters (pickQuery Core.string).arguments {} = some (fit, {}) ∧
        fit.sources = answer.fit.sources := by
  have hrun :
      succeedsWith ((pickResolver ⟨28⟩).tryResolve Core.object (pickQuery Core.string)) pickStore
      (fun found s' => found.any fun answer => s' = pickStore ∧ answer.queriedType = Core.object ∧
        answer.member.parameters.map Parameter.type = [Core.string, ⟨23⟩]) ∧
      succeedsWith ((pickResolver ⟨28⟩).choose Core.object (pickQuery Core.string)) pickStore
        (fun best _ => best.all fun best => best.member = pickMethod ⟨28⟩) ∧
      (∀ t ∈ [Core.string, ⟨23⟩], pickStore.isOpen t = false) ∧
      (pickStore.info ⟨28⟩).isParameter = false ∧ (pickStore.info ⟨28⟩).isByRef = false ∧
      (pickStore.info ⟨27⟩).shape = .parameter { owner := .method ⟨0⟩, position := 0 } ∧
      pickStore.stripByRef ⟨27⟩ = ⟨27⟩ ∧
      argumentVariance pickStore { position := 1, name := none, type := ⟨28⟩ } =
        .contravariant := by
    decide +kernel
  obtain ⟨htry, hchosen, hclosed, hparameter, hbyRef, hshape, hstrip, hvariance⟩ := hrun
  obtain ⟨found, s', htry, hfound⟩ := exists_of_succeedsWith htry
  obtain ⟨answer, hanswer, htest⟩ := (Option.any_eq_true _ _).mp hfound
  obtain ⟨hstore, hqueried, htypes⟩ := of_decide_eq_true htest
  rw [hstore, hanswer] at htry
  have hs := reachable_pickStore.wellFormed
  obtain ⟨best, hchoose, -, hkeeps⟩ := closed_member_takes reachable_pickStore
    reachable_pickStore.scoped_store (heldBy_pickResolver (by decide)) (holds_pickStore (by decide))
    (heldBy_pickQuery (by decide)) htry fun p hp => hclosed p.type (htypes ▸ List.mem_map_of_mem hp)
  have hmember : best.member = pickMethod ⟨28⟩ := by
    obtain ⟨chosen, s', hchosen, htest⟩ := exists_of_succeedsWith hchosen
    rw [hqueried, hchosen] at hchoose
    obtain ⟨rfl, -⟩ := EStateM.Result.ok.inj hchoose
    exact of_decide_eq_true htest
  have havoids : pickStore.Avoids best.closing.replaces Core.string :=
    (Store.IsClean.of_not_isOpen hs.toFormed (holds_pickStore (by decide))
      (hclosed _ List.mem_cons_self)).avoids
  refine ⟨answer, htry, htypes, hkeeps.fits fun {k a p p'} hgoes hnot => ?_⟩
  have hopened := hgoes.opened
  rw [hmember] at hopened
  -- The first parameter is bare, and nothing is bound before it. The second one is firm.
  match k, hgoes, hopened with
  | 0, hgoes, hopened =>
    obtain rfl := Option.some.inj hopened
    obtain rfl : Argument.ofType Core.string = a := Option.some.inj hgoes.given
    refine (hkeeps.bare hgoes rfl havoids
      ((congrArg (fun t => (pickStore.info t).shape) hstrip).trans hshape)).resolve_right
        fun hbound => ?_
    obtain ⟨⟨before, hbefore, hbound⟩, -⟩ := hbound
    rw [bound?_of_inferredBefore_zero rfl hbefore] at hbound
    cases hbound
  | 1, hgoes, hopened =>
    obtain rfl := Option.some.inj hopened
    obtain rfl : Argument.ofType Core.string = a := Option.some.inj hgoes.given
    refine absurd ⟨nofun, fun u hu => ?_, fun u hu => ?_⟩ hnot
    · obtain rfl := Option.some.inj hu
      exact havoids
    · rw [hvariance]
      exact .widened hparameter hbyRef

/-- **A closed member may refuse a resolved call.** A text is bound to the parameter; then an object
goes to it as well, for the text flows into the object. But the method on texts takes no object. -/
theorem closed_member_refuses :
    (pickStore.Reachable fun s op => op.Scoped s) ∧ ∃ answer,
      (pickResolver ⟨27⟩).tryResolve Core.object (pickQuery Core.object) pickStore =
        .ok (some answer) pickStore ∧
      (∀ p ∈ answer.member.parameters, pickStore.isOpen p.type = false) ∧
      ∀ depth, fitParameters pickStore depth .caseSensitive answer.member.parameters
        (pickQuery Core.object).arguments {} = none := by
  have hrun :
      succeedsWith ((pickResolver ⟨27⟩).tryResolve Core.object (pickQuery Core.object)) pickStore
      (fun found s' => found.any fun answer => s' = pickStore ∧ answer.member.parameters =
        [{ position := 0, name := none, type := Core.string },
          { position := 1, name := none, type := Core.string }]) ∧
      pickStore.isOpen Core.string = false ∧
      argumentVariance pickStore { position := 1, name := none, type := Core.string } =
        .contravariant ∧
      matchWithin pickStore 30 Core.object .contravariant Core.string {} = .refused := by
    decide +kernel
  obtain ⟨htry, htext, hvariance, hrefused⟩ := hrun
  obtain ⟨found, s', htry, hfound⟩ := exists_of_succeedsWith htry
  obtain ⟨answer, hanswer, htest⟩ := (Option.any_eq_true _ _).mp hfound
  obtain ⟨hstore, hparameters⟩ := of_decide_eq_true htest
  rw [hstore, hanswer] at htry
  have hs := reachable_pickStore.wellFormed
  have hclosed : ∀ p ∈ answer.member.parameters, pickStore.isOpen p.type = false := fun p hp => by
    rw [hparameters] at hp
    rcases List.mem_pair.mp hp with rfl | rfl <;> exact htext
  refine ⟨reachable_pickStore, answer, htry, hclosed, fun depth => ?_⟩
  refine Option.eq_none_iff_forall_ne_some.mpr fun fit hfit => ?_
  have htakes := takes_of_fit hs reachable_pickStore.scoped_store (fun p hp q => ?_) hfit
    (k := 1) (by rw [hparameters]; rfl) (a := .ofType Core.object) rfl
  · have haccepts := htakes.2 Core.object rfl
    rw [hvariance] at haccepts
    exact Store.Accepts.ne_refused haccepts 30 hrefused
  · have hheld : pickStore.Holds p.type := by
      rw [hparameters] at hp
      rcases List.mem_pair.mp hp with rfl | rfl <;> exact holds_pickStore (by decide)
    exact hs.not_mentions_of_not_isOpen hheld (hclosed p hp) q

end CallSite
