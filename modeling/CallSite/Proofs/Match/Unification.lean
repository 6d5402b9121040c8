import CallSite.Proofs.Match.Closed
import CallSite.Proofs.Match.Inherit
import CallSite.Proofs.Type.Hierarchy
import CallSite.Proofs.Type.Reachable

/-!
# Invariant matches unify

An invariant match is unification with variables on one side: it looks for types to put in place of
the parameters of the member that have slots, so that the member becomes the source. What it finds
is right (`matchWithin_unifies`) and it finds what there is (`matchWithin_of_image`). Since types
are made once, a member that becomes the source part by part becomes the very same type.

Both need that the source and what is bound already are *settled*: they avoid the parameters with
slots, so that nothing in them is left to be found. This is handed on by a match, also where the
constraints of a parameter are checked, and those go up the hierarchy of the source; so hierarchies
have to be scoped. References stand apart, because a match sees through them on one side
(`Store.NoInnerReferences`).

* `Inference.Sends` – what the slots say a parameter is replaced by.
* `Store.Avoids`, `Store.Settled` – types that mention no parameter with a slot.
* `invariant_match_unifies` – soundness and completeness for reachable stores.
-/

namespace CallSite

/-! ### Settled inferences -/

/-- What the slots say a parameter is replaced by. A parameter with a slot has to be bound, one
without a slot stays. -/
def Inference.Sends (i : Inference) : Valuation :=
  fun x p y => if i.owns p then i.bound? p = some y else y = x

namespace Store

/-- **A type avoids the slots**: it mentions no parameter that has one. -/
def Avoids (s : Store) (owns : GenericParameter → Bool) (t : TypeId) : Prop :=
  ∀ q p, s.Mentions t q → (s.info q).shape = .parameter p → owns p = false

/-- **References stand outside**: no base, interface, constraint, element of an array or argument is
a reference. -/
structure NoInnerReferences (s : Store) : Prop where
  /-- Bases and interfaces are no references. -/
  above : ∀ {t u}, u ∈ (s.info t).above → (s.info u).isByRef = false
  /-- Constraints are no references. -/
  constraint : ∀ {t u}, u ∈ (s.info t).constraints → (s.info u).isByRef = false
  /-- Elements of arrays are no references. -/
  element : ∀ {t e rank}, (s.info t).shape = .arrayType e rank → (s.info e).isByRef = false
  /-- Arguments are no references. -/
  argument : ∀ {t a}, a ∈ (s.info t).arguments → (s.info a).isByRef = false

/-- A type with nothing left to be found in it: it is held and avoids the slots. -/
structure IsClean (s : Store) (owns : GenericParameter → Bool) (t : TypeId) : Prop where
  /-- It is held. -/
  holds : s.Holds t
  /-- It avoids the slots. -/
  avoids : s.Avoids owns t

/-- A type that may be bound: it is clean, and it is no reference. -/
structure IsSource (s : Store) (owns : GenericParameter → Bool) (t : TypeId) : Prop
    extends s.IsClean owns t where
  /-- It is no reference. -/
  not_byRef : (s.info t).isByRef = false

/-- **What is bound is settled**: it may be bound to the slots as they are. -/
def Settled (s : Store) (i : Inference) : Prop :=
  i.All (s.IsSource i.owns)

variable {s : Store} {owns : GenericParameter → Bool}

theorem Avoids.part {t u : TypeId} (h : s.Avoids owns t) (hu : u ∈ s.parts t) : s.Avoids owns u :=
  fun q p hq hp => h q p (.part hu hq) hp

/-- The root of all classes is clean. -/
theorem IsClean.object (hs : s.WellFormed) : s.IsClean owns Core.object :=
  ⟨Nat.lt_trans (by decide) hs.core_lt_size,
    fun _ _ hq => absurd hq (not_mentions_of_plain hs.form_object)⟩

theorem IsClean.part (hs : s.Formed) {t u : TypeId} (h : s.IsClean owns t) (hu : u ∈ s.parts t) :
    s.IsClean owns u :=
  ⟨hs.holds_part hu, h.avoids.part hu⟩

/-- What is clean stays so when the store grows. -/
theorem IsClean.of_extends {s' : Store} {t : TypeId} (h : s.IsClean owns t) (hs : s.Formed)
    (hext : s.Extends s') : s'.IsClean owns t := by
  refine ⟨hext.holds h.holds, fun q p hq hp => ?_⟩
  have hq := (hext.mentions_iff hs h.holds).mp hq
  rw [hext.info_eq hq.holds] at hp
  exact h.avoids q p hq hp

/-- A type that is not open is clean. -/
theorem IsClean.of_not_isOpen (hs : s.Formed) {t : TypeId} (ht : s.Holds t)
    (h : s.isOpen t = false) : s.IsClean owns t :=
  ⟨ht, fun q _ hq _ => absurd hq (hs.not_mentions_of_not_isOpen ht h q)⟩

/-- **To be clean is handed on** where hierarchies are scoped. -/
theorem inherited_isClean (hs : s.WellFormed) (hsc : s.Scoped) : s.Inherited (s.IsClean owns) where
  above hu ht := ⟨hs.holds_above hu, fun q p hq hp => ht.avoids q p (hsc _ _ hu q hq) hp⟩
  root _ _ := .object hs
  element he ht := ht.part hs.toFormed (Store.element_mem_parts (TypeInfo.form_eq_array_iff.mpr he))
  target he ht := ht.part hs.toFormed
    (Store.target_mem_parts (TypeInfo.form_eq_reference_iff.mpr he))
  argument ha ht := ht.part hs.toFormed (hs.mem_parts_of_mem_arguments ha)

/-- To be fit for a slot is handed on, where references stand outside as well. -/
theorem inherited_isSource (hs : s.WellFormed) (hsc : s.Scoped) (href : s.NoInnerReferences) :
    s.Inherited (s.IsSource owns) where
  above hu ht := ⟨(inherited_isClean hs hsc).above hu ht.toIsClean, href.above hu⟩
  root _ _ :=
    ⟨.object hs, by rw [TypeInfo.isByRef, (TypeInfo.form_eq_named_iff.mp hs.form_object).1]⟩
  element he ht := ⟨(inherited_isClean hs hsc).element he ht.toIsClean, href.element he⟩
  target he ht := by
    exact absurd he (TypeInfo.shape_ne_reference ht.not_byRef)
  argument ha ht := ⟨(inherited_isClean hs hsc).argument ha ht.toIsClean, href.argument ha⟩

end Store

namespace Inference

variable {i j : Inference}

theorem sends_of_owns {x y : TypeId} {p : GenericParameter} (h : i.owns p) :
    i.Sends x p y ↔ i.bound? p = some y := by
  rw [Sends, if_pos h]

theorem sends_of_not_owns {x y : TypeId} {p : GenericParameter} (h : i.owns p = false) :
    i.Sends x p y ↔ y = x := by
  rw [Sends, if_neg (by rw [h]; exact Bool.false_ne_true)]

theorem Sends.of_extends (h : i.Extends j) {x y : TypeId} {p : GenericParameter}
    (hi : i.Sends x p y) : j.Sends x p y := by
  by_cases ho : i.owns p
  · rw [sends_of_owns ho] at hi
    rw [sends_of_owns (h.owns_eq p ▸ ho)]
    exact h.bound?_of_some hi
  · rw [Bool.not_eq_true] at ho
    rw [sends_of_not_owns ho] at hi
    rw [sends_of_not_owns (h.owns_eq p ▸ ho)]
    exact hi

/-- A type that avoids the slots has no image but itself. -/
theorem eq_of_image_of_avoids {s : Store} (hs : s.Formed) {t u : TypeId} (ht : s.Avoids i.owns t)
    (h : Image s i.Sends t u) : u = t := by
  exact h.eq_self hs fun x p y hx hp hy => (sends_of_not_owns (ht x p hx hp)).mp hy

theorem image_self_of_avoids {s : Store} (hs : s.Formed) {t : TypeId} (ht : s.Avoids i.owns t) :
    Image s i.Sends t t := by
  exact .self hs fun x p hx hp => (sends_of_not_owns (ht x p hx hp)).mpr rfl

end Inference

/-! ### What a match finds is right -/

section Sound

variable {s : Store} {owns : GenericParameter → Bool}

/-- A match begins well: its source and what is bound already may be bound to the slots. -/
structure Store.Ready (s : Store) (owns : GenericParameter → Bool) (source : TypeId)
    (i : Inference) : Prop where
  /-- These are the slots. -/
  owns_eq : i.owns = owns
  /-- The source may be bound. -/
  source : s.IsSource owns source
  /-- What is bound is settled. -/
  bound : i.All (s.IsSource owns)

/-- **Matches unify**: what they bind is settled, and after an invariant match the source is an
image of the member. -/
def Unifies (s : Store) (owns : GenericParameter → Bool) : MatchRelation :=
  fun source v member i j =>
    i.Extends j ∧ Inherits (s.IsSource owns) source v member i j ∧
      (s.Ready owns source i → v = .invariant → (s.info member).isByRef = false →
        Image s j.Sends member source)

/-- After one match the next one begins well. -/
theorem Unifies.ready {source source' member : TypeId} {v : Variance} {i j : Inference}
    (h : Unifies s owns source v member i j) (hready : s.Ready owns source i)
    (hsource' : s.IsSource owns source') : s.Ready owns source' j :=
  ⟨(funext h.1.owns_eq).trans hready.owns_eq, hsource', h.2.1 hready.source hready.bound⟩

/-- Matching one argument after another. -/
theorem images_of_arguments {pairs : List (TypeId × TypeId)} {i j : Inference}
    (h : Stepwise (fun pair => Unifies s owns pair.1 .invariant pair.2) pairs i j)
    (hpairs : ∀ pair ∈ pairs, s.IsSource owns pair.1 ∧ (s.info pair.2).isByRef = false)
    (howns : i.owns = owns) (hi : i.All (s.IsSource owns)) :
    i.Extends j ∧ ∀ pair ∈ pairs, Image s j.Sends pair.2 pair.1 := by
  induction h with
  | nil => exact ⟨.refl _, fun _ h => absurd h List.not_mem_nil⟩
  | cons hpair _ ih =>
    obtain ⟨hsource, hmember⟩ := hpairs _ List.mem_cons_self
    have hready : s.Ready owns _ _ := ⟨howns, hsource, hi⟩
    have hnext := hpair.ready hready hsource
    obtain ⟨hext', himages⟩ := ih (fun pair hmem => hpairs pair (List.mem_cons_of_mem _ hmem))
      hnext.owns_eq hnext.bound
    refine ⟨hpair.1.trans hext', fun pair hmem => ?_⟩
    rcases List.mem_cons.mp hmem with rfl | hmem
    · exact (hpair.2.2 hready rfl hmember).mono fun _ _ _ _ _ => Inference.Sends.of_extends hext'
    · exact himages pair hmem

/-- An invariant match converts nothing to what is bound, since that is settled. -/
theorem not_converted (hs : s.Formed) {source bound : TypeId} {p : GenericParameter}
    {v : Variance} {i j : Inference} (h : Unifies s owns source v bound i j) (ho : i.owns p)
    (hb : i.bound? p = some bound) (hready : s.Ready owns source i) (hv : v = .invariant) :
    bound = source := by
  have hbound := hready.bound p bound ho hb
  refine (Inference.eq_of_image_of_avoids hs ?_ (h.2.2 hready hv hbound.not_byRef)).symm
  rw [(h.ready hready hready.source).owns_eq]
  exact hbound.avoids

/-- **Each rule unifies.** -/
theorem unifies_of_rule (hs : s.WellFormed) (hsc : s.Scoped) (href : s.NoInnerReferences)
    {source member : TypeId} {v : Variance} {i j : Inference}
    (h : MatchRule s (Unifies s owns) source v member i j) :
    Unifies s owns source v member i j := by
  have hP : s.Inherited (s.IsSource owns) := Store.inherited_isSource hs hsc href
  have hext := extends_of_rule (h.mono fun _ _ _ _ _ h => h.1)
  refine ⟨hext, inherits_of_rule hP (h.mono fun _ _ _ _ _ h => h.2.1), fun hready hv hm => ?_⟩
  cases h with
  | foreign hp ho => exact .parameter hp ((Inference.sends_of_not_owns ho).mpr rfl)
  | confirmed hp ho hb => exact .parameter hp ((Inference.sends_of_owns ho).mpr hb)
  | converted _ ho hb hne h => exact absurd (not_converted hs.toFormed h ho hb hready hv) hne
  | inverted _ ho hb hne h =>
    exact absurd (not_converted hs.toFormed h ho hb hready (by rw [hv]; rfl)) hne
  | bound hp ho hb _ h =>
    have hsteps := extends_of_check (fun _ _ _ _ _ h => h.1) h
    refine .parameter hp ((Inference.sends_of_owns ?_).mpr ?_)
    · rw [hext.owns_eq]
      exact ho
    · exact hsteps.bound?_of_some (Inference.bound?_put_self source ho)
  | same =>
    refine Inference.image_self_of_avoids hs.toFormed ?_
    rw [hready.owns_eq]
    exact hready.source.avoids
  | references hbyRef =>
    exact absurd hbyRef (TypeInfo.shape_ne_reference hready.source.not_byRef)
  | reference _ hbyRef =>
    exact absurd hbyRef (TypeInfo.shape_ne_reference hm)
  | elements hfs hfm h =>
    have helement := hP.element hfs hready.source
    exact .array (TypeInfo.form_eq_array_iff.mpr hfm) (TypeInfo.form_eq_array_iff.mpr hfs)
      (h.2.2 ⟨hready.owns_eq, helement, hready.bound⟩ rfl (href.element hfm))
  | arguments _ _ hds hdm hlen h =>
    obtain ⟨-, himages⟩ := images_of_arguments h (fun pair hmem =>
      ⟨hP.argument (List.of_mem_zip hmem).1 hready.source,
        href.argument (List.of_mem_zip hmem).2⟩) hready.owns_eq hready.bound
    exact .of_arguments hs.toFormed hds hdm fun k a b ha hb =>
      himages (b, a) (List.mem_iff_getElem?.mpr ⟨k, List.getElem?_zip_eq_some.mpr ⟨hb, ha⟩⟩)
  | widenToInterface | widenToNullable | widenToBase | narrowFromInterface | narrowFromNullable
  | narrowFromBase => cases hv

/-- **Every accepted match unifies.** -/
theorem matchWithin_unifies (hs : s.WellFormed) (hsc : s.Scoped) (href : s.NoInnerReferences)
    {depth : Nat} {source member : TypeId} {v : Variance} {i j : Inference}
    (h : matchWithin s depth source v member i = .accepted j) :
    Unifies s owns source v member i j :=
  matchWithin_induction (fun _ _ _ _ _ h => unifies_of_rule hs hsc href h) h

end Sound

/-! ### Substitutions that complete an inference -/

/-- **A substitution completes an inference**: it puts in place of a parameter what its slot holds,
and leaves alone the parameters without a slot. What it does with an empty slot is left open. -/
structure Substitution.Completes (σ : Substitution) (i : Inference) : Prop where
  /-- What a slot holds is put in place of its parameter. -/
  lookup_of_bound : ∀ {p t}, i.owns p → i.bound? p = some t → σ.lookup p = some t
  /-- A parameter without a slot stays. -/
  lookup_of_not_owns : ∀ {p}, i.owns p = false → σ.lookup p = none

namespace Substitution.Completes

variable {σ : Substitution} {i : Inference}

theorem sends (h : σ.Completes i) {x y : TypeId} {p : GenericParameter} (hi : i.Sends x p y) :
    σ.Sends x p y := by
  unfold Substitution.Sends
  by_cases ho : i.owns p
  · rw [h.lookup_of_bound ho ((Inference.sends_of_owns ho).mp hi)]
    rfl
  · rw [Bool.not_eq_true] at ho
    rw [h.lookup_of_not_owns ho, (Inference.sends_of_not_owns ho).mp hi]
    rfl

/-- Binding a slot to what the substitution puts in its place. -/
theorem put (h : σ.Completes i) {p : GenericParameter} {t : TypeId} (hp : i.owns p)
    (hl : σ.lookup p = some t) : σ.Completes (i.put p t) := by
  refine ⟨fun {q u} hq hu => ?_, fun {q} hq => ?_⟩
  · rw [Inference.owns_put] at hq
    rcases Inference.bound?_of_put hp hq hu with hu | ⟨rfl, howner, hpos⟩
    · exact h.lookup_of_bound hq hu
    · rw [← hl]
      unfold Substitution.lookup
      rw [howner, hpos]
  · rw [Inference.owns_put] at hq
    exact h.lookup_of_not_owns hq

end Substitution.Completes

/-- The substitution that a complete inference stands for, with a type for slots that are empty. -/
def Inference.substitution (i : Inference) (fill : TypeId) : Substitution where
  typeOwner := match i.typeSlots.owner with
    | some (.type d) => some d
    | _ => none
  typeArguments := i.typeSlots.bound.map (·.getD fill)
  methodOwner := match i.methodSlots.owner with
    | some (.method m) => some m
    | _ => none
  methodArguments := i.methodSlots.bound.map (·.getD fill)

/-- The slots read as a list of types. -/
theorem Slots.getElem?_filled (slots : Slots) (fill : TypeId) (k : Nat) :
    (slots.bound.map (·.getD fill))[k]? =
      if k < slots.arity then some ((slots.get? k).getD fill) else none := by
  rw [List.getElem?_map]
  split
  case isTrue hk =>
    rw [get?, List.getElem?_eq_getElem hk]
    rfl
  case isFalse hk =>
    rw [List.getElem?_eq_none (Nat.le_of_not_lt hk)]
    rfl

theorem Inference.typeOwner_substitution {i : Inference} {fill d : TypeId} :
    (i.substitution fill).typeOwner = some d ↔ i.typeSlots.owner = some (.type d) := by
  dsimp only [substitution]
  split
  case h_1 d' hd' => rw [hd', Option.some.injEq, Option.some.injEq, Owner.type.injEq]
  case h_2 hnone => exact iff_of_false (Option.some_ne_none d).symm (hnone d)

theorem Inference.methodOwner_substitution {i : Inference} {fill : TypeId} {m : MethodToken} :
    (i.substitution fill).methodOwner = some m ↔ i.methodSlots.owner = some (.method m) := by
  dsimp only [substitution]
  split
  case h_1 m' hm' => rw [hm', Option.some.injEq, Option.some.injEq, Owner.method.injEq]
  case h_2 hnone => exact iff_of_false (Option.some_ne_none m).symm (hnone m)

/-- What the substitution puts in place of a parameter is what its slot holds. -/
theorem Inference.lookup_substitution (i : Inference) (fill : TypeId) (p : GenericParameter) :
    (i.substitution fill).lookup p =
      if i.owns p then some ((i.bound? p).getD fill) else none := by
  unfold owns bound? Slots.owns
  cases hp : p.owner with
  | type d =>
    rw [Substitution.lookup_of_type hp]
    simp only [Bool.and_eq_true, decide_eq_true_iff, ite_and]
    exact if_congr typeOwner_substitution (i.typeSlots.getElem?_filled fill p.position) rfl
  | method m =>
    rw [Substitution.lookup_of_method hp]
    simp only [Bool.and_eq_true, decide_eq_true_iff, ite_and]
    exact if_congr methodOwner_substitution (i.methodSlots.getElem?_filled fill p.position) rfl

theorem Inference.completes_substitution (i : Inference) (fill : TypeId) :
    (i.substitution fill).Completes i := by
  refine ⟨fun {p t} ho hb => ?_, fun {p} ho => ?_⟩
  · rw [lookup_substitution, if_pos ho, hb, Option.getD_some]
  · rw [lookup_substitution, ho, if_neg Bool.false_ne_true]

/-! ### What can be found is found -/

section Complete

variable {s : Store} {σ : Substitution}

/-- The parameters with slots that a type mentions ask nothing of their arguments. -/
def Store.Unconstrained (s : Store) (i : Inference) (m : TypeId) : Prop :=
  ∀ q p, s.Mentions m q → (s.info q).shape = .parameter p → i.owns p →
    p.flags = Flags.none ∧ p.constraints = []

theorem satisfiesFlags_none (s : Store) (t : TypeId) : satisfiesFlags s t Flags.none = true := by
  have h₁ : Flags.none.contains Flags.reference = false := by decide
  have h₂ : Flags.none.contains Flags.nonNullableValue = false := by decide
  have h₃ : Flags.none.contains Flags.defaultConstructor = false := by decide
  simp [satisfiesFlags, h₁, h₂, h₃]

/-- Going on from item to item, where each is accepted and keeps what the next one needs. -/
theorem exists_all_accepted {α β : Type} {P : α → Prop} {step : β → α → Attempt α} {items : List β}
    (hstep : ∀ b ∈ items, ∀ a, P a → ∃ a', step b a = .accepted a' ∧ P a') {a : α} (ha : P a) :
    ∃ a', Attempt.all step items a = .accepted a' ∧ P a' := by
  induction items generalizing a with
  | nil => exact ⟨a, rfl, ha⟩
  | cons b items ih =>
    obtain ⟨a₁, h₁, hP₁⟩ := hstep b List.mem_cons_self a ha
    obtain ⟨a₂, h₂, hP₂⟩ := ih (fun b' hb' => hstep b' (List.mem_cons_of_mem _ hb')) hP₁
    exact ⟨a₂, by rw [Attempt.all, h₁]; exact h₂, hP₂⟩

/-- **What a substitution makes the same is found**: whatever is bound already, if the substitution
completes it and makes the source of the member, the match is accepted, and the substitution
completes the result as well. -/
def Store.Finds (s : Store) (σ : Substitution) (m source : TypeId) (depth : Nat) : Prop :=
  ∀ i, s.Unconstrained i m → s.Avoids i.owns source → σ.Completes i →
    ∃ j, matchWithin s depth source .invariant m i = .accepted j ∧ i.Extends j ∧ σ.Completes j

section Level

variable {m source : TypeId} {depth : Nat}

theorem finds_parameter {p : GenericParameter} (hp : (s.info m).shape = .parameter p)
    (hsends : σ.Sends m p source) : s.Finds σ m source (depth + 1) := by
  intro i hfree hsource hσ
  rw [matchWithin, matchStep, hp]
  dsimp only
  rw [matchParameter]
  by_cases ho : i.owns p
  · rw [if_pos ho]
    -- A parameter with a slot is replaced, since the source avoids it.
    have hlookup : σ.lookup p = some source := by
      cases hl : σ.lookup p with
      | some t => rw [hsends, hl]; rfl
      | none =>
        rw [Substitution.Sends, hl] at hsends
        rw [hsends] at hsource
        rw [hsource m p (.of_parameter hp) hp] at ho
        cases ho
    cases hb : i.bound? p with
    | some b =>
      have hbs : b = source :=
        Option.some.inj ((hσ.lookup_of_bound ho hb).symm.trans hlookup)
      dsimp only
      rw [if_pos hbs]
      exact ⟨i, rfl, .refl i, hσ⟩
    | none =>
      obtain ⟨hflags, hcons⟩ := hfree m p (.of_parameter hp) hp ho
      dsimp only
      rw [if_pos (by rw [hflags]; exact satisfiesFlags_none s source), hcons]
      have hput := Inference.Extends.put source hb
      have hσ' := hσ.put ho hlookup
      exact ⟨_, rfl, ⟨hput.typeSlots, hput.methodSlots⟩,
        ⟨fun hq hu => hσ'.lookup_of_bound hq hu, fun hq => hσ'.lookup_of_not_owns hq⟩⟩
  · rw [if_neg ho]
    rw [Bool.not_eq_true] at ho
    rw [Substitution.Sends, hσ.lookup_of_not_owns ho] at hsends
    obtain rfl : source = m := hsends
    refine ⟨i, ?_, .refl i, hσ⟩
    rw [Attempt.guard, if_pos (decide_eq_true rfl)]

theorem finds_array {e e' : TypeId} {rank : Nat} (hm : s.form m = .array e rank)
    (hc : s.form source = .array e' rank) (h : s.Finds σ e e' depth) :
    s.Finds σ m source (depth + 1) := by
  intro i hfree hsource hσ
  obtain ⟨j, hj, hrest⟩ := h i (fun q p hq => hfree q p (.part (Store.element_mem_parts hm) hq))
    (hsource.part (Store.element_mem_parts hc)) hσ
  rw [matchWithin, matchStep, TypeInfo.form_eq_array_iff.mp hm]
  dsimp only
  by_cases heq : source = m
  · rw [if_pos heq]
    exact ⟨i, rfl, .refl i, hσ⟩
  · rw [if_neg heq, matchElements, TypeInfo.form_eq_array_iff.mp hm,
      TypeInfo.form_eq_array_iff.mp hc]
    dsimp only
    rw [if_pos rfl, hj]
    exact ⟨j, rfl, hrest⟩

theorem finds_reference {e e' : TypeId} (hm : s.form m = .reference e)
    (hc : s.form source = .reference e') (h : s.Finds σ e e' depth) :
    s.Finds σ m source (depth + 1) := by
  intro i hfree hsource hσ
  obtain ⟨j, hj, hrest⟩ := h i (fun q p hq => hfree q p (.part (Store.target_mem_parts hm) hq))
    (hsource.part (Store.target_mem_parts hc)) hσ
  rw [matchWithin, matchStep, TypeInfo.form_eq_reference_iff.mp hm]
  dsimp only
  by_cases heq : source = m
  · rw [if_pos heq]
    exact ⟨i, rfl, .refl i, hσ⟩
  · rw [if_neg heq, TypeInfo.form_eq_reference_iff.mp hc]
    exact ⟨j, hj, hrest⟩

/-- The arguments of two types are matched one after another, each with what those before it
bound. -/
theorem finds_arguments {as bs : List TypeId} {i : Inference} (hσ : σ.Completes i)
    (hfree : ∀ a ∈ as, s.Unconstrained i a) (hsource : ∀ b ∈ bs, s.Avoids i.owns b)
    (h : ∀ (k : Nat) a b, as[k]? = some a → bs[k]? = some b → s.Finds σ a b depth) :
    ∃ j, Attempt.all (fun pair => matchWithin s depth pair.1 .invariant pair.2) (bs.zip as) i =
      .accepted j ∧ i.Extends j ∧ σ.Completes j := by
  refine exists_all_accepted (P := fun j => i.Extends j ∧ σ.Completes j)
    (fun pair hpair k hk => ?_) ⟨.refl i, hσ⟩
  obtain ⟨n, hn⟩ := List.mem_iff_getElem?.mp hpair
  obtain ⟨hb, ha⟩ := List.getElem?_zip_eq_some.mp hn
  obtain ⟨j, hj, hext, hσj⟩ := h n _ _ ha hb k
    (fun q p hq hp ho => hfree _ (List.mem_of_getElem? ha) q p hq hp (hk.1.owns_eq p ▸ ho))
    (fun q p hq hp => (hk.1.owns_eq p).trans (hsource _ (List.mem_of_getElem? hb) q p hq hp)) hk.2
  exact ⟨j, hj, hk.1.trans hext, hσj⟩

theorem finds_named (hs : s.Formed) {shape : Shape} {d d' : Option TypeId} {as bs : List TypeId}
    (hm : s.form m = .named shape d as) (hc : s.form source = .named shape d' bs)
    (hhead : s.head source = s.head m)
    (h : ∀ (k : Nat) a b, as[k]? = some a → bs[k]? = some b → s.Finds σ a b depth) :
    s.Finds σ m source (depth + 1) := by
  intro i hfree hsource hσ
  have hlen := Image.length_eq hs hm hc hhead
  obtain ⟨-, -, has, -⟩ := TypeInfo.form_eq_named_iff.mp hm
  obtain ⟨hshape, -, hbs, hkind⟩ := TypeInfo.form_eq_named_iff.mp hc
  obtain ⟨hplain, hplain'⟩ := TypeInfo.plain_of_form_eq_named hm
  rw [matchWithin_succ_of_plain hplain hplain']
  by_cases heq : source = m
  · rw [if_pos heq]
    exact ⟨i, rfl, .refl i, hσ⟩
  rw [if_neg heq]
  have helements : matchElements s (matchWithin s depth) source m i = .refused := by
    rw [matchElements, hshape]
    rcases hkind with rfl | rfl | rfl <;> rfl
  -- Without arguments the source would be the member.
  have hne : as ≠ [] := by
    rintro rfl
    obtain rfl := List.eq_nil_of_length_eq_zero hlen
    exact heq (hs.eq_of_head_eq hc hm hhead)
  have hne' : bs ≠ [] := fun hcon => by
    rw [hcon] at hlen
    exact hne (List.eq_nil_of_length_eq_zero hlen.symm)
  have hdm : s.genericDefinition m = some (s.head m) :=
    hs.genericDefinition_eq_some_iff.mpr ⟨rfl, has ▸ hne⟩
  have hds : s.genericDefinition source = some (s.head m) :=
    hs.genericDefinition_eq_some_iff.mpr ⟨hhead, hbs ▸ hne'⟩
  obtain ⟨j, hj, hrest⟩ := finds_arguments hσ
    (fun a ha q p hq => hfree q p (.part (Store.argument_mem_parts hm ha) hq))
    (fun b hb => hsource.part (Store.argument_mem_parts hc hb)) h
  have harguments : matchArguments s (matchWithin s depth) source m i = .accepted j := by
    rw [matchArguments, hds, hdm]
    dsimp only
    rw [has, hbs, if_pos ⟨rfl, hlen⟩, hj]
  rw [helements, harguments]
  exact ⟨j, rfl, hrest⟩

end Level

/-- **What can be found is found**: where a substitution that completes the inference makes the
source of the member, the match is accepted, and the substitution completes the result as well. -/
theorem matchWithin_of_image (hs : s.Formed) {m source : TypeId} {i : Inference}
    (himage : Image s σ.Sends m source) (hfree : s.Unconstrained i m)
    (hsource : s.Avoids i.owns source)
    (hσ : σ.Completes i) {depth : Nat} (hdepth : s.height m < depth) :
    ∃ j, matchWithin s depth source .invariant m i = .accepted j ∧ i.Extends j ∧
      σ.Completes j := by
  suffices hfinds : s.Finds σ m source depth from hfinds i hfree hsource hσ
  clear hfree hsource hσ
  -- The parts of a member stand below it, and their matches one level below the match.
  induction himage generalizing depth with
  | parameter hp hsends =>
    obtain ⟨depth, rfl⟩ := Nat.exists_eq_add_of_le' (Nat.lt_of_le_of_lt (Nat.zero_le _) hdepth)
    exact finds_parameter hp hsends
  | array hm hc _ ih =>
    obtain ⟨depth, rfl⟩ := Nat.exists_eq_add_of_le' (Nat.lt_of_le_of_lt (Nat.zero_le _) hdepth)
    have hlt := hs.height_part (Store.element_mem_parts hm)
    exact finds_array hm hc (ih (Nat.lt_of_lt_of_le hlt (Nat.le_of_lt_succ hdepth)))
  | reference hm hc _ ih =>
    obtain ⟨depth, rfl⟩ := Nat.exists_eq_add_of_le' (Nat.lt_of_le_of_lt (Nat.zero_le _) hdepth)
    have hlt := hs.height_part (Store.target_mem_parts hm)
    exact finds_reference hm hc (ih (Nat.lt_of_lt_of_le hlt (Nat.le_of_lt_succ hdepth)))
  | named hm hc hhead _ ih =>
    obtain ⟨depth, rfl⟩ := Nat.exists_eq_add_of_le' (Nat.lt_of_le_of_lt (Nat.zero_le _) hdepth)
    refine finds_named hs hm hc hhead fun k a b ha hb => ih k a b ha hb ?_
    have hlt := hs.height_part (Store.argument_mem_parts hm (List.mem_of_getElem? ha))
    exact Nat.lt_of_lt_of_le hlt (Nat.le_of_lt_succ hdepth)

end Complete

/-! ### Invariant matches in reachable stores -/

theorem Inference.completes_empty (cost : MatchCost) :
    Substitution.Completes {} { cost := cost } := by
  refine ⟨fun {p t} hp => ?_, fun {p} _ => ?_⟩
  · rw [owns_of_empty] at hp
    cases hp
  · exact Substitution.lookup_of_isEmpty rfl p

/-- **An invariant match is unification with variables in the member alone.** It holds in every
reachable store where hierarchies are scoped and references stand outside, for a source that avoids
the slots and for settled bindings.

Where the match succeeds, every parameter with a slot that the member mentions is bound, and putting
the bindings in place turns the member into the source. Conversely it succeeds where some completion
of the bindings turns the member into the source, if the parameters to be bound carry no
constraints. So without slots it succeeds where the source is the member, and there alone. -/
theorem invariant_match_unifies {s : Store} (hreach : s.Reachable fun s op => op.Scoped s)
    (href : s.NoInnerReferences) {source m : TypeId} (hsource : s.Holds source) (hm : s.Holds m)
    (hsourceRef : (s.info source).isByRef = false) (hmRef : (s.info m).isByRef = false) :
    (∀ i j depth, s.Avoids i.owns source → s.Settled i →
      s.matches depth source .invariant m i = some j →
        (∀ q p, s.Mentions m q → (s.info q).shape = .parameter p → j.owns p →
          ∃ b, j.bound? p = some b) ∧
        ∀ σ : Substitution, σ.Completes j → substitute σ m s = .ok source s) ∧
    (∀ (i : Inference) (σ : Substitution) (s' : Store), s.Avoids i.owns source →
      s.Unconstrained i m → σ.Completes i → σ.HeldBy s → substitute σ m s = .ok source s' →
        ∀ depth, s.size < depth → ∃ j, s.matches depth source .invariant m i = some j) ∧
    ∀ cost depth, s.size < depth →
      ((∃ j, s.matches depth source .invariant m { cost := cost } = some j) ↔ source = m) := by
  have hs := hreach.wellFormed
  have hheight : ∀ depth, s.size < depth → s.height m < depth := fun depth hdepth =>
    Nat.lt_of_le_of_lt (Nat.le_trans (s.height_le m) hm) hdepth
  have hsound : ∀ i j depth, s.Avoids i.owns source → s.Settled i →
      s.matches depth source .invariant m i = some j → Image s j.Sends m source := by
    intro i j depth havoid hset h
    have hunifies : Unifies s i.owns source .invariant m i j :=
      matchWithin_unifies hs hreach.scoped_store href (matches_eq_some_iff.mp h)
    exact hunifies.2.2 ⟨rfl, ⟨⟨hsource, havoid⟩, hsourceRef⟩, hset⟩ rfl hmRef
  refine ⟨fun i j depth havoid hset h => ?_, ?_, fun cost depth hdepth => ?_⟩
  · have himage := hsound i j depth havoid hset h
    refine ⟨fun q p hq hp ho => ?_, fun σ hσ => ?_⟩
    · obtain ⟨b, hb, -⟩ := himage.exists_valued hq hp hs.toFormed
      exact ⟨b, (Inference.sends_of_owns ho).mp hb⟩
    · exact substitute_of_image hs.toFormed (himage.mono fun _ _ _ _ _ => hσ.sends) hm hsource
  · intro i σ s' havoid hfree hσ hheld hsubst depth hdepth
    obtain ⟨hgrown, -, himage⟩ := (ensures_substitute hs hm hheld).of_ok hsubst
    have himage' := himage.of_extended hs.toFormed hgrown.toExtends hm hsource
    obtain ⟨j, hj, -⟩ :=
      matchWithin_of_image hs.toFormed himage' hfree havoid hσ (hheight depth hdepth)
    exact ⟨j, matches_eq_some_iff.mpr hj⟩
  · have havoid : ∀ t, s.Avoids (Inference.owns { cost := cost }) t := fun t q p _ _ =>
      Inference.owns_of_empty cost p
    have hset : s.Settled { cost := cost } := fun p b hp => by
      rw [Inference.owns_of_empty] at hp
      cases hp
    constructor
    · rintro ⟨j, h⟩
      have hempty : j.owns = Inference.owns { cost := cost } :=
        funext fun p => (matchWithin_extends (matches_eq_some_iff.mp h)).owns_eq p
      have himage := hsound _ j depth (havoid source) hset h
      refine Inference.eq_of_image_of_avoids (i := j) hs.toFormed (fun q p _ _ => ?_) himage
      rw [hempty]
      exact Inference.owns_of_empty cost p
    · rintro rfl
      have hself : Image s (Substitution.Sends {}) source source :=
        .self hs.toFormed fun x p _ _ => by
          rw [Substitution.Sends, Substitution.lookup_of_isEmpty rfl]
          rfl
      obtain ⟨j, hj, -⟩ := matchWithin_of_image hs.toFormed hself (fun q p _ _ ho => by
        rw [Inference.owns_of_empty] at ho
        cases ho) (havoid source) (Inference.completes_empty cost) (hheight depth hdepth)
      exact ⟨j, matches_eq_some_iff.mpr hj⟩

/-- Without references none stands inside. -/
theorem noInnerReferences_of_none {s : Store}
    (h : ∀ i < s.size, (s.info ⟨i⟩).isByRef = false) : s.NoInnerReferences := by
  have hnone : ∀ t, (s.info t).isByRef = false := by
    intro t
    by_cases ht : s.Holds t
    · exact h t.index ht
    · rw [Store.info_of_not_holds ht]
      rfl
  exact ⟨fun _ => hnone _, fun _ => hnone _, fun _ => hnone _, fun _ => hnone _⟩

/-- What compares texts unifies with what compares its argument, and the argument is the text. -/
theorem invariant_match_unifies_equatable :
    ∃ (source : TypeId) (i j : Inference),
      Store.initial.display source = "IEquatable<String>" ∧
      Store.initial.matches 28 source .invariant Core.equatable i = some j ∧
      j.typeSlots.values = some [Core.string] ∧
      ∀ σ : Substitution, σ.Completes j →
        substitute σ Core.equatable Store.initial = .ok source Store.initial := by
  have hsize := Store.size_initial
  have hsource : Store.initial.Holds ⟨23⟩ := by
    rw [Store.Holds, hsize]
    decide
  have hm : Store.initial.Holds Core.equatable := by
    rw [Store.Holds, hsize]
    decide
  have href : Store.initial.NoInnerReferences := noInnerReferences_of_none (by
    rw [hsize]
    decide +kernel)
  have hunifies := invariant_match_unifies .initial href hsource hm (by decide +kernel)
    (by decide +kernel)
  let i : Inference := { typeSlots := Slots.ofArity (.type Core.equatable) 1 }
  let j : Inference :=
    { typeSlots := { owner := some (.type Core.equatable), bound := [some Core.string] } }
  have hmatch : Store.initial.matches 28 ⟨23⟩ .invariant Core.equatable i = some j := by
    decide +kernel
  have hclosed : Store.initial.isOpen ⟨23⟩ = false := by decide +kernel
  refine ⟨⟨23⟩, i, j, by decide +kernel, hmatch, rfl, (hunifies.1 i j 28 ?_ ?_ hmatch).2⟩
  · intro q p hq _
    have hopen := (Store.wellFormed_initial.isOpen_iff
      (by rw [Store.Holds, hsize]; decide)).mpr ⟨q, hq⟩
    rw [hclosed] at hopen
    cases hopen
  · exact .of_unbound (Slots.get?_ofArity _ _) Slots.get?_empty

end CallSite
