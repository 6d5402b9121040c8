import CallSite.Proofs.Match.Closed
import CallSite.Proofs.Match.Unification
import CallSite.Proofs.Type.Commute

/-!
# From an open member to a closed one

A match of an open member binds parameters as it goes. When all bindings are put in place the member
becomes closed, and the question is whether the source still matches. It does where the match is
firm (`Store.Firm`): below an invariant match, and below a contravariant one of a member with parts,
all parameters are met invariantly, so each of them is bound to the very part of the source that it
meets (`CallSite.matchWithin_closes`). A bare parameter is met under any variance, and once it is
bound a source is also taken in the opposite direction; so there the closed member matches in one of
the two directions (`CallSite.accepts_of_bare`).

* `Substitution.Agrees` – what is bound is what a substitution puts in place.
* `Store.Closed` – a type mentions no parameter.
-/

namespace CallSite

/-- **A type is closed** when it mentions no parameter. -/
def Store.Closed (s : Store) (t : TypeId) : Prop :=
  ∀ q, ¬ s.Mentions t q

/-- A substitution replaces the parameter. -/
def Substitution.replaces (σ : Substitution) (p : GenericParameter) : Bool :=
  (σ.lookup p).isSome

/-- **What is bound is what a substitution puts in place** of the parameters that it replaces. -/
def Substitution.Agrees (σ : Substitution) (i : Inference) : Prop :=
  ∀ {p b b'}, i.owns p → i.bound? p = some b → σ.lookup p = some b' → b' = b

theorem Substitution.Agrees.of_extends {σ : Substitution} {i j : Inference} (h : σ.Agrees j)
    (hext : i.Extends j) : σ.Agrees i :=
  fun ho hb hl => h (hext.owns_eq _ ▸ ho) (hext.bound?_of_some hb) hl

/-- **A type hands down to its images** what stands above it, with the parameters of a method
replaced; and what stands above a type is neither a parameter nor a reference. -/
structure Store.HandsDown (s : Store) (σ : Substitution) : Prop where
  /-- Images derive from each other, but for those of a bare parameter. -/
  derives : ∀ {x y}, (s.info x).isParameter = false → Image s σ.Sends x y → s.Derives σ x y
  /-- What stands above a type has parts of its own. -/
  plain : ∀ {x u}, u ∈ (s.info x).above →
    (s.info u).isParameter = false ∧ (s.info u).isByRef = false
  /-- Parameters of types stay. -/
  lookup_of_type : ∀ {p : GenericParameter} {d}, p.owner = .type d → σ.lookup p = none

/-- **In an orderly store** where every type is complete and no reference stands above a type, types
hand down what stands above them. -/
theorem Store.Orderly.handsDown {s : Store} {σ : Substitution} (h : s.Orderly) (hs : s.WellFormed)
    (hcomplete : ∀ t, s.Complete t)
    (href : ∀ {t u}, u ∈ (s.info t).above → (s.info u).isByRef = false)
    (hσ : ∀ {p : GenericParameter} {d}, p.owner = .type d → σ.lookup p = none) : s.HandsDown σ where
  derives hx himage := h.derives_of_image hs hcomplete (fun o k hf => by
    obtain ⟨p, hp, -⟩ := TypeInfo.form_eq_parameter_iff.mp hf
    exact absurd hp (TypeInfo.shape_ne_parameter hx)) himage
  plain {x u} hu := ⟨TypeInfo.isParameter_eq_false_iff.mpr fun _ hp =>
    h.not_parameter hu _ _ (TypeInfo.form_of_parameter hp), href hu⟩
  lookup_of_type := hσ

/-- **A firm match**: no bare parameter is met but invariantly. -/
inductive Store.Firm (s : Store) (σ : Substitution) : Variance → TypeId → Prop
  /-- Nothing but what is the same matches. -/
  | invariant {member : TypeId} : Firm s σ .invariant member
  /-- There are no parameters. -/
  | closed {v : Variance} {member : TypeId} : s.Closed member → Firm s σ v member
  /-- A reference is met as what it refers to. -/
  | reference {v : Variance} {member element : TypeId} :
      (s.info member).shape = .byRefType element → Firm s σ v element → Firm s σ v member
  /-- The source is widened until it has the parts of the member. -/
  | widened {member : TypeId} : (s.info member).isParameter = false →
      (s.info member).isByRef = false → Firm s σ .contravariant member
  /-- The member is narrowed until it has the parts of the source. -/
  | narrowed {member : TypeId} : (s.info member).isParameter = false →
      (s.info member).isByRef = false → s.HandsDown σ → Firm s σ .covariant member

namespace Store

variable {s : Store} {t u : TypeId}

/-- What a closed type is made of, and what stands above it, is closed. -/
theorem inherited_closed (hs : s.WellFormed) (hsc : s.Scoped) : s.Inherited s.Closed where
  above hu ht q hq := ht q (hsc _ _ hu q hq)
  root _ _ _ hq := not_mentions_of_plain hs.form_object hq
  element he ht q hq :=
    ht q (.part (Store.element_mem_parts (TypeInfo.form_eq_array_iff.mpr he)) hq)
  target he ht q hq :=
    ht q (.part (Store.target_mem_parts (TypeInfo.form_eq_reference_iff.mpr he)) hq)
  argument ha ht q hq := ht q (.part (hs.mem_parts_of_mem_arguments ha) hq)

theorem Closed.image_self (h : s.Closed t) (hs : s.Formed) (V : Valuation) : Image s V t t :=
  .self hs fun q _ hq _ => absurd hq (h q)

theorem Closed.ne_parameter (h : s.Closed t) {p : GenericParameter} :
    (s.info t).shape ≠ .parameter p :=
  fun hp => h t (.of_parameter hp)

end Store

/-! ### Closed images -/

namespace Image

variable {s : Store} {σ : Substitution} {m c : TypeId}

/-- A parameter that has a closed image is replaced by it. -/
theorem lookup_of_closed (h : Image s σ.Sends m c) (hc : s.Closed c) {p : GenericParameter}
    (hp : (s.info m).shape = .parameter p) : σ.lookup p = some c := by
  have hsends := (parameter_iff hp).mp h
  rw [Substitution.Sends] at hsends
  cases hl : σ.lookup p with
  | some b => rw [hsends, hl, Option.getD_some]
  | none =>
    rw [hl, Option.getD_none] at hsends
    exact absurd (hsends ▸ hp) hc.ne_parameter

/-- What avoids the parameters that are replaced is its own image only. -/
theorem eq_of_avoids (h : Image s σ.Sends m c) (hs : s.Formed) (hm : s.Avoids σ.replaces m) :
    c = m := by
  refine h.eq_self hs fun x p y hx hp hy => ?_
  have hnone : σ.lookup p = none :=
    Option.not_isSome_iff_eq_none.mp (Bool.eq_false_iff.mp (hm x p hx hp))
  rw [Substitution.Sends, hnone] at hy
  exact hy

/-- The image of a type is one of the same kind, unless that is a parameter. -/
theorem plain (h : Image s σ.Sends m c) (hp : (s.info m).isParameter = false)
    (hr : (s.info m).isByRef = false) :
    (s.info c).isParameter = false ∧ (s.info c).isByRef = false := by
  cases h with
  | parameter hshape =>
    exact absurd hshape (TypeInfo.shape_ne_parameter hp)
  | array _ hc =>
    rw [TypeInfo.isParameter, TypeInfo.isByRef, TypeInfo.form_eq_array_iff.mp hc]
    exact ⟨rfl, rfl⟩
  | reference hm =>
    exact absurd (TypeInfo.form_eq_reference_iff.mp hm) (TypeInfo.shape_ne_reference hr)
  | named _ hc => exact TypeInfo.plain_of_form_eq_named hc

/-- **The image of a generic type** has the same definition, and images for arguments. -/
theorem genericDefinition (h : Image s σ.Sends m c) (hs : s.Formed) {d : TypeId}
    (hm : s.genericDefinition m = some d) : s.genericDefinition c = some d ∧
      (s.info c).arguments.length = (s.info m).arguments.length ∧
      ∀ (k : Nat) a b, (s.info m).arguments[k]? = some a → (s.info c).arguments[k]? = some b →
        Image s σ.Sends a b := by
  obtain ⟨hhead, hne⟩ := hs.genericDefinition_eq_some_iff.mp hm
  obtain ⟨shape, d', hfm⟩ := hs.parts_of_arguments hne
  obtain ⟨d'', bs, hfc, hhead', hargs⟩ := (Image.named_iff hfm).mp h
  obtain rfl : (s.info c).arguments = bs := Store.arguments_of_named hfc
  have hlen := Image.length_eq hs hfm hfc hhead'
  refine ⟨hs.genericDefinition_eq_some_iff.mpr ⟨hhead'.trans hhead, fun hnil => ?_⟩, hlen, hargs⟩
  rw [hnil] at hlen
  exact hne (List.eq_nil_of_length_eq_zero hlen.symm)

/-- **The closed image of a nullable type** is nullable. -/
theorem nullableUnderlying (h : Image s σ.Sends m c) (hs : s.Formed) (hc : s.Closed c) {u : TypeId}
    (hu : s.nullableUnderlying m = some u) :
    ∃ u', s.nullableUnderlying c = some u' ∧ Image s σ.Sends u u' := by
  unfold Store.nullableUnderlying at hu
  dsimp only at hu
  split at hu
  case isFalse => cases hu
  case isTrue hdef =>
    obtain ⟨shape, hf⟩ := hs.form_of_definition hdef
    obtain ⟨d', bs, hfc, hhead, hargs⟩ := (named_iff hf).mp h
    have hlen := length_eq hs hf hfc hhead
    rw [List.head?_eq_getElem?] at hu
    obtain ⟨hlt, -⟩ := List.getElem?_eq_some_iff.mp hu
    have hb := List.getElem?_eq_getElem (hlen.symm ▸ hlt)
    refine ⟨bs[0], ?_, hargs 0 u bs[0] hu hb⟩
    obtain ⟨-, hd', hbs, -⟩ := TypeInfo.form_eq_named_iff.mp hfc
    -- The nullable definition itself is not closed.
    have hsome : d' = some Core.nullable := by
      rw [Store.head_of_named hfc, Store.head_of_named hf] at hhead
      cases d' with
      | some d => exact congrArg some hhead
      | none =>
        have hown := hs.own_parameter hfc hb
        refine absurd (.part ?_ (.self hown)) (hc bs[0])
        exact Store.argument_mem_parts hfc (List.mem_of_getElem? hb)
    unfold Store.nullableUnderlying
    dsimp only
    rw [hd', hsome, if_pos rfl, hbs, List.head?_eq_getElem?]
    exact hb

/-- The closed image of a value type that is not nullable is one as well, if the parameters of types
stay. -/
theorem isValueType (h : Image s σ.Sends m c) (hs : s.Formed) (hc : s.Closed c)
    (hσ : ∀ {p : GenericParameter} {d}, p.owner = .type d → σ.lookup p = none)
    (hvalue : (s.info m).isValueType) (hnone : s.nullableUnderlying m = none) :
    (s.info c).isValueType ∧ s.nullableUnderlying c = none := by
  have hf := TypeInfo.form_of_isValueType hvalue
  obtain ⟨d', bs, hfc, hhead, hargs⟩ := (named_iff hf).mp h
  obtain ⟨hshape, hd', hbs, -⟩ := TypeInfo.form_eq_named_iff.mp hfc
  refine ⟨TypeInfo.isValueType_iff.mpr hshape, ?_⟩
  have hlen := length_eq hs hf hfc hhead
  unfold Store.nullableUnderlying at hnone ⊢
  dsimp only at hnone ⊢
  split
  case isFalse => rfl
  case isTrue hdef =>
    rw [hbs, List.head?_eq_none_iff]
    cases hdm : (s.info m).definition with
    | some d =>
      rw [Store.head, Store.head, hdef, hdm] at hhead
      obtain rfl : Core.nullable = d := hhead
      rw [if_pos hdm, List.head?_eq_none_iff] at hnone
      rw [hnone] at hlen
      exact List.eq_nil_of_length_eq_zero hlen
    | none =>
      -- The nullable definition keeps its parameter, which its image then mentions.
      refine List.eq_nil_iff_forall_not_mem.mpr fun b hb => ?_
      obtain ⟨k, hk⟩ := List.mem_iff_getElem?.mp hb
      obtain ⟨hlt, -⟩ := List.getElem?_eq_some_iff.mp hk
      have ha := List.getElem?_eq_getElem (hlen ▸ hlt)
      rw [hdm] at hf
      obtain ⟨p, hp, howner, -⟩ := TypeInfo.form_eq_parameter_iff.mp (hs.own_parameter hf ha)
      have hsends := (parameter_iff hp).mp (hargs k _ b ha hk)
      rw [Substitution.Sends, hσ howner, Option.getD_none] at hsends
      refine hc b (.part ?_ (.of_parameter (hsends ▸ hp)))
      exact Store.argument_mem_parts hfc hb

variable (hs : s.WellFormed) (hdown : s.HandsDown σ)

include hs hdown

/-- The base of an image is an image of the base. -/
theorem exists_baseStep (h : Image s σ.Sends m c) (hp : (s.info m).isParameter = false) {b : TypeId}
    (hb : baseStep s m = some b) : ∃ b', baseStep s c = some b' ∧ Image s σ.Sends b b' ∧
      (s.info b).isParameter = false ∧ (s.info b).isByRef = false := by
  have hrel := (hdown.derives hp h).base
  unfold baseStep at hb ⊢
  cases hbase : (s.info m).base with
  | some b₀ =>
    rw [hbase] at hb hrel
    obtain rfl := Option.some.inj hb
    generalize hbase' : (s.info c).base = o at hrel ⊢
    cases hrel with
    | some himage => exact ⟨_, rfl, himage, hdown.plain (TypeInfo.base_mem_above hbase)⟩
  | none =>
    rw [hbase] at hb hrel
    dsimp only at hb
    split at hb
    case isFalse => cases hb
    case isTrue hinterface =>
      obtain rfl := Option.some.inj hb
      generalize hbase' : (s.info c).base = o at hrel ⊢
      cases hrel
      obtain ⟨d', bs, hfc, -⟩ := (Image.named_iff (TypeInfo.form_of_isInterface hinterface)).mp h
      refine ⟨Core.object, if_pos (TypeInfo.isInterface_iff.mpr
        (TypeInfo.form_eq_named_iff.mp hfc).1), ?_, TypeInfo.plain_of_form_eq_named hs.form_object⟩
      exact .self hs.toFormed fun q _ hq _ => absurd hq (Store.not_mentions_of_plain hs.form_object)

/-- The interfaces of an image are images of the interfaces. -/
theorem exists_interface (h : Image s σ.Sends m c) (hp : (s.info m).isParameter = false)
    {f : TypeId} (hf : f ∈ s.allInterfaces m) : ∃ f' ∈ s.allInterfaces c, Image s σ.Sends f f' := by
  obtain ⟨f', hf', himage, -⟩ := Store.exists_interface_related
    (R := fun x y => Image s σ.Sends x y ∧ (s.info x).isParameter = false)
    (fun x y hR => rel_imp_of_mem (hdown.derives hR.2 hR.1).base fun _ _ hb _ himage =>
      ⟨himage, (hdown.plain (TypeInfo.base_mem_above hb)).1⟩)
    (fun x y hR => forall₂_imp_of_mem (hdown.derives hR.2 hR.1).interfaces fun _ hu _ _ himage =>
      ⟨himage, (hdown.plain (TypeInfo.interface_mem_above hu)).1⟩) hs ⟨h, hp⟩ hf
  exact ⟨f', hf', himage⟩

end Image

/-! ### What a firm match narrows to -/

namespace Store.Firm

variable {s : Store} {σ : Substitution} {m c : TypeId} (hs : s.WellFormed) (hsc : s.Scoped)
  (himage : Image s σ.Sends m c)

omit hs hsc himage in
/-- A bare parameter is met invariantly only. -/
theorem eq_invariant {v : Variance} (h : s.Firm σ v m) {p : GenericParameter}
    (hp : (s.info m).shape = .parameter p) : v = .invariant := by
  cases h with
  | invariant => rfl
  | closed hclosed => exact absurd hp hclosed.ne_parameter
  | reference he => exact absurd (hp.symm.trans he) Shape.noConfusion
  | widened hnot | narrowed hnot =>
    exact absurd hp (TypeInfo.shape_ne_parameter hnot)

omit hs hsc himage in
/-- What a reference refers to is met as firmly as the reference. -/
theorem target (hclosed : s.Inherited s.Closed) {v : Variance} (h : s.Firm σ v m) {e : TypeId}
    (he : (s.info m).shape = .byRefType e) : s.Firm σ v e := by
  cases h with
  | invariant => exact .invariant
  | closed hm => exact .closed (hclosed.target he hm)
  | reference hother hfirm =>
    obtain rfl := Shape.byRefType.inj (he.symm.trans hother)
    exact hfirm
  | widened _ hnot | narrowed _ hnot =>
    exact absurd he (TypeInfo.shape_ne_reference hnot)

/-- A plain member is closed or hands down what stands above it. -/
theorem narrowed_or_closed (h : s.Firm σ .covariant m) (hr : (s.info m).isByRef = false) :
    s.HandsDown σ ∨ s.Closed m := by
  cases h with
  | closed hm => exact .inr hm
  | narrowed _ _ hdown => exact .inl hdown
  | reference he =>
    exact absurd he (TypeInfo.shape_ne_reference hr)

include hs hsc himage

/-- The image of a member is narrowed to the image of each of its interfaces. -/
theorem exists_interface (h : s.Firm σ .covariant m) (hp : (s.info m).isParameter = false)
    (hr : (s.info m).isByRef = false) {f : TypeId} (hf : f ∈ s.allInterfaces m) :
    ∃ f' ∈ s.allInterfaces c, Image s σ.Sends f f' := by
  obtain hdown | hm := h.narrowed_or_closed hr
  · exact himage.exists_interface hs hdown hp hf
  · obtain rfl := himage.eq_of_avoids hs.toFormed fun q _ hq => absurd hq (hm q)
    exact ⟨f, hf, ((inherited_closed hs hsc).upward (upward_of_mem_allInterfaces hf) hm).image_self
      hs.toFormed _⟩

/-- The image of a member is narrowed to the image of its base, which is firm in turn. -/
theorem exists_baseStep (h : s.Firm σ .covariant m) (hp : (s.info m).isParameter = false)
    (hr : (s.info m).isByRef = false) {b : TypeId} (hb : baseStep s m = some b) :
    ∃ b', baseStep s c = some b' ∧ Image s σ.Sends b b' ∧ s.Firm σ .covariant b := by
  obtain hdown | hm := h.narrowed_or_closed hr
  · obtain ⟨b', hb', himage', hpb, hrb⟩ := himage.exists_baseStep hs hdown hp hb
    exact ⟨b', hb', himage', .narrowed hpb hrb hdown⟩
  · obtain rfl := himage.eq_of_avoids hs.toFormed fun q _ hq => absurd hq (hm q)
    have hclosed := (inherited_closed hs hsc).baseStep hb hm
    exact ⟨b, hb, hclosed.image_self hs.toFormed _, .closed hclosed⟩

omit hsc in
/-- The closed image of a value type that is not nullable is one as well. -/
theorem isValueType (h : s.Firm σ .covariant m) (hc : s.Closed c) (hvalue : (s.info m).isValueType)
    (hnone : s.nullableUnderlying m = none) :
    (s.info c).isValueType ∧ s.nullableUnderlying c = none := by
  have hr := (TypeInfo.plain_of_form_eq_named (TypeInfo.form_of_isValueType hvalue)).2
  obtain hdown | hm := h.narrowed_or_closed hr
  · exact himage.isValueType hs.toFormed hc hdown.lookup_of_type hvalue hnone
  · obtain rfl := himage.eq_of_avoids hs.toFormed fun q _ hq => absurd hq (hm q)
    exact ⟨hvalue, hnone⟩

end Store.Firm

/-! ### Firm matches -/

section Closes

variable {s : Store} {σ : Substitution} {source member c : TypeId} {v : Variance} {i j : Inference}

/-- **A match closes**: whatever closed image the member has under a substitution that agrees with
the result, the source matches that image, if the match is firm. -/
def Closes (s : Store) (σ : Substitution) : MatchRelation := fun source v member i j =>
  i.Extends j ∧ (s.IsClean σ.replaces source → σ.Agrees j → s.Firm σ v member →
    ∀ c, Image s σ.Sends member c → s.Closed c → s.Accepts source v c)

/-- Matches of one argument after another close. -/
theorem closes_arguments {pairs : List (TypeId × TypeId)}
    (h : Stepwise (fun pair => Closes s σ pair.1 .invariant pair.2) pairs i j) :
    i.Extends j ∧ (σ.Agrees j → ∀ pair ∈ pairs, s.IsClean σ.replaces pair.1 →
      ∀ c, Image s σ.Sends pair.2 c → s.Closed c → s.Accepts pair.1 .invariant c) := by
  induction h with
  | nil => exact ⟨.refl _, fun _ pair hpair => absurd hpair List.not_mem_nil⟩
  | cons hfirst _ ih =>
    refine ⟨hfirst.1.trans ih.1, fun hagrees pair hpair hclean => ?_⟩
    rcases List.mem_cons.mp hpair with rfl | hpair
    · exact hfirst.2 hclean (hagrees.of_extends ih.1) .invariant
    · exact ih.2 hagrees pair hpair hclean

/-- What is bound to a parameter closes it. -/
theorem accepts_of_bound {p : GenericParameter} (hp : (s.info member).shape = .parameter p)
    (ho : i.owns p) (hb : i.bound? p = some source) (hagrees : σ.Agrees i)
    (himage : Image s σ.Sends member c) (hc : s.Closed c) : s.Accepts source v c := by
  obtain rfl := hagrees ho hb (himage.lookup_of_closed hc hp)
  exact .self s c v

/-- A parameter stays bound to the source while its constraints are checked. -/
theorem bound?_of_constraints {cs : List TypeId} {p : GenericParameter}
    (h : Stepwise (ConstraintRule s (fun _ _ _ i j => i.Extends j) source) cs (i.put p source) j)
    (ho : i.owns p) : j.owns p ∧ j.bound? p = some source := by
  have hext := h.extends fun _ _ _ hc => hc.extends
  exact ⟨(hext.owns_eq p).trans ((i.owns_put p p source).trans ho),
    hext.bound?_of_some (Inference.bound?_put_self source ho)⟩

/-- What matches the type that is bound to a parameter matches what closes it. -/
theorem Closes.of_bound {bound : TypeId} {p : GenericParameter} (h : Closes s σ source v bound i j)
    (hs : s.Formed) (hp : (s.info member).shape = .parameter p) (ho : i.owns p)
    (hb : i.bound? p = some bound) (hclean : s.IsClean σ.replaces source) (hagrees : σ.Agrees j)
    (himage : Image s σ.Sends member c) (hc : s.Closed c) : s.Accepts source v c := by
  obtain rfl := (hagrees.of_extends h.1) ho hb (himage.lookup_of_closed hc hp)
  exact h.2 hclean hagrees (.closed hc) c (hc.image_self hs _) hc

/-- Generic types whose arguments match match what closes one of them, argument by argument. -/
theorem accepts_of_arguments (hs : s.WellFormed) (hsc : s.Scoped) {d : TypeId}
    (hp : (s.info member).isParameter = false) (hr : (s.info member).isByRef = false)
    (hsource : s.genericDefinition source = some d) (hmember : s.genericDefinition member = some d)
    (hlen : (s.info source).arguments.length = (s.info member).arguments.length)
    (h : Stepwise (fun pair => Closes s σ pair.1 .invariant pair.2)
      ((s.info source).arguments.zip (s.info member).arguments) i j)
    (hclean : s.IsClean σ.replaces source) (hagrees : σ.Agrees j)
    (himage : Image s σ.Sends member c) (hc : s.Closed c) : s.Accepts source v c := by
  obtain ⟨hdc, hlen', hargs⟩ := himage.genericDefinition hs.toFormed hmember
  obtain ⟨hpc, hrc⟩ := himage.plain hp hr
  refine .of_arguments hs.toFormed hpc hrc hsource hdc (hlen.trans hlen'.symm) fun pair hpair => ?_
  obtain ⟨k, hk⟩ := List.mem_iff_getElem?.mp hpair
  obtain ⟨ha, hb⟩ := List.getElem?_zip_eq_some.mp hk
  obtain ⟨hlt, -⟩ := List.getElem?_eq_some_iff.mp ha
  have hm := List.getElem?_eq_getElem (hlen ▸ hlt)
  have hargument := (Store.inherited_isClean hs hsc).argument (List.mem_of_getElem? ha) hclean
  exact (closes_arguments h).2 hagrees (pair.1, (s.info member).arguments[k])
    (List.mem_of_getElem? (List.getElem?_zip_eq_some.mpr ⟨ha, hm⟩)) hargument pair.2
    (hargs k _ _ hm hb) ((Store.inherited_closed hs hsc).argument (List.mem_of_getElem? hb) hc)

/-- **Each rule of a match closes** where the matches it rests on do. -/
theorem closes_of_rule (hs : s.WellFormed) (hsc : s.Scoped)
    (h : MatchRule s (Closes s σ) source v member i j) : Closes s σ source v member i j := by
  have hinherit : s.Inherited (s.IsClean σ.replaces) := Store.inherited_isClean hs hsc
  have hclosed := Store.inherited_closed hs hsc
  have hf := hs.toFormed
  refine ⟨extends_of_rule (h.mono fun _ _ _ _ _ h => h.1),
    fun hclean hagrees hfirm c himage hc => ?_⟩
  cases h with
  -- A parameter without a slot matches itself only; but a closed image means that it is replaced,
  -- and the source mentions nothing of that kind.
  | @foreign _ _ p _ hp =>
    have hkept := hclean.avoids _ p (.of_parameter hp) hp
    rw [Substitution.replaces, himage.lookup_of_closed hc hp] at hkept
    cases hkept
  | confirmed hp ho hb => exact accepts_of_bound hp ho hb hagrees himage hc
  | converted hp ho hb _ h => exact h.of_bound hf hp ho hb hclean hagrees himage hc
  -- The one case in which the direction is turned; a firm match meets no parameter but invariantly,
  -- and then there is nothing to turn.
  | inverted hp ho hb _ h =>
    obtain rfl := hfirm.eq_invariant hp
    exact h.of_bound hf hp ho hb hclean hagrees himage hc
  | bound hp ho _ _ h =>
    obtain ⟨ho', hb'⟩ := bound?_of_constraints (h.mono fun _ _ _ _ hc =>
      hc.mono fun _ _ _ _ _ h => h.1) ho
    exact accepts_of_bound hp ho' hb' hagrees himage hc
  | same =>
    obtain rfl := himage.eq_of_avoids hf hclean.avoids
    exact .self s _ v
  | references hsource hmember h =>
    obtain ⟨e, he, himage'⟩ := (Image.reference_iff (TypeInfo.form_eq_reference_iff.mpr hmember)).mp
      himage
    have he' := TypeInfo.form_eq_reference_iff.mp he
    exact .of_references hsource he' (h.2 (hinherit.target hsource hclean) hagrees .invariant e
      himage' (hclosed.target he' hc))
  | reference hsource hmember h =>
    obtain ⟨e, he, himage'⟩ := (Image.reference_iff (TypeInfo.form_eq_reference_iff.mpr hmember)).mp
      himage
    have he' := TypeInfo.form_eq_reference_iff.mp he
    exact .of_reference hsource he' (h.2 hclean hagrees (hfirm.target hclosed hmember) e himage'
      (hclosed.target he' hc))
  | elements hsource hmember h =>
    obtain ⟨e, he, himage'⟩ := (Image.array_iff (TypeInfo.form_eq_array_iff.mpr hmember)).mp himage
    have he' := TypeInfo.form_eq_array_iff.mp he
    exact .of_elements hsource he' (h.2 (hinherit.element hsource hclean) hagrees .invariant e
      himage' (hclosed.element he' hc))
  | arguments hp hr hsource hmember hlen h =>
    exact accepts_of_arguments hs hsc hp hr hsource hmember hlen h hclean hagrees himage hc
  -- From here on one of the two gives way to what stands above it or within it, and the member only
  -- together with its image.
  | widenToInterface hmember hfound h =>
    have hclean' := hinherit.upward (Store.upward_of_mem_allInterfaces hfound) hclean
    refine .of_interface hf ?_ hfound (h.2 hclean' hagrees .invariant c himage hc)
    obtain ⟨d', bs, hfc, -⟩ := (Image.named_iff (TypeInfo.form_of_isInterface hmember)).mp himage
    exact TypeInfo.isInterface_iff.mpr (TypeInfo.form_eq_named_iff.mp hfc).1
  | widenToNullable hp hr hu hvalue hnone h =>
    obtain ⟨u', hu', himage'⟩ := himage.nullableUnderlying hf hc hu
    obtain ⟨hpc, hrc⟩ := himage.plain hp hr
    exact .of_nullable hf hpc hrc hu' hvalue hnone (h.2 hclean hagrees .invariant u' himage'
      (hclosed.argument (Store.nullableUnderlying_mem hu') hc))
  | widenToBase hp hr hb h =>
    obtain ⟨hpc, hrc⟩ := himage.plain hp hr
    exact .of_base hf hpc hrc hb (h.2 (hinherit.baseStep hb hclean) hagrees (.widened hp hr) c
      himage hc)
  | narrowFromInterface hp hr hsource hfound h =>
    obtain ⟨f', hf', himage'⟩ := hfirm.exists_interface hs hsc himage hp hr hfound
    obtain ⟨hpc, hrc⟩ := himage.plain hp hr
    exact .of_narrowed_interface hf hpc hrc hsource hf' (h.2 hclean hagrees .invariant f' himage'
      (hclosed.upward (Store.upward_of_mem_allInterfaces hf') hc))
  | narrowFromNullable hu hvalue hnone h =>
    obtain ⟨hvalue', hnone'⟩ := hfirm.isValueType hs himage hc hvalue hnone
    exact .of_narrowed_nullable hf hu hvalue' hnone' (h.2 (hinherit.argument
      (Store.nullableUnderlying_mem hu) hclean) hagrees .invariant c himage hc)
  | narrowFromBase hp hr hb h =>
    obtain ⟨b', hb', himage', hfirm'⟩ := hfirm.exists_baseStep hs hsc himage hp hr hb
    obtain ⟨hpc, hrc⟩ := himage.plain hp hr
    exact .of_narrowed_base hf hpc hrc hb' (h.2 hclean hagrees hfirm' b' himage'
      (hclosed.baseStep hb' hc))

/-- **What an open member accepts, the closed one accepts**, if the match is firm. -/
theorem matchWithin_closes (hs : s.WellFormed) (hsc : s.Scoped) {depth : Nat}
    (h : matchWithin s depth source v member i = .accepted j) : Closes s σ source v member i j :=
  matchWithin_induction (fun _ _ _ _ _ h => closes_of_rule hs hsc h) h

/-! ### Bare parameters -/

variable (hs : s.WellFormed) (hsc : s.Scoped) {depth : Nat}
  (h : matchWithin s depth source v member i = .accepted j) (hclean : s.IsClean σ.replaces source)
  (hagrees : σ.Agrees j) (himage : Image s σ.Sends member c) (hc : s.Closed c)

include hs hsc h hclean hagrees himage hc

/-- **What a parameter accepts** is its closed image; or the parameter was bound before, and what it
accepts matches the image in one of two directions. -/
theorem accepts_of_parameter {p : GenericParameter} (hp : (s.info member).shape = .parameter p) :
    (∀ w, s.Accepts source w c) ∨
      (i.bound? p).isSome ∧ (s.Accepts source v c ∨ s.Accepts source v.inverse c) := by
  cases depth with
  | zero => cases h
  | succ depth =>
  have hf := hs.toFormed
  have hrecurse : ∀ {source v member i j}, (matchWithin s depth).Accepts source v member i j →
      Closes s σ source v member i j := matchWithin_closes hs hsc
  cases (matchRule_of_matchStep h).of_parameter hp with
  | foreign heq =>
    subst heq
    have hkept := hclean.avoids _ p (.of_parameter hp) hp
    rw [Substitution.replaces, himage.lookup_of_closed hc hp] at hkept
    cases hkept
  | confirmed ho hb => exact .inl fun _ => accepts_of_bound hp ho hb hagrees himage hc
  | converted ho hb hw h =>
    have haccepts := (hrecurse h).of_bound hf hp ho hb hclean hagrees himage hc
    refine .inr ⟨by rw [hb]; rfl, ?_⟩
    rcases hw with rfl | rfl
    · exact .inl haccepts
    · exact .inr haccepts
  | bound ho _ hall =>
    obtain ⟨ho', hb'⟩ := bound?_of_constraints (hall.mono fun _ _ _ _ hc =>
      hc.mono fun _ _ _ _ _ h => (hrecurse h).1) ho
    exact .inl fun _ => accepts_of_bound hp ho' hb' hagrees himage hc

/-- **What a bare parameter accepts**, or a reference to one, is the closed image of that; or the
parameter was bound before, and what it accepts matches the image in one of two directions. -/
theorem accepts_of_bare {p : GenericParameter}
    (hp : (s.info (s.stripByRef member)).shape = .parameter p) :
    (∀ w, s.Accepts source w c) ∨
      (i.bound? p).isSome ∧ (s.Accepts source v c ∨ s.Accepts source v.inverse c) := by
  unfold Store.stripByRef at hp
  split at hp
  case h_2 => exact accepts_of_parameter hs hsc h hclean hagrees himage hc hp
  case h_1 e he =>
  cases depth with
  | zero => cases h
  | succ depth =>
  have hclosed := Store.inherited_closed hs hsc
  obtain ⟨e', hce, himage'⟩ :=
    (Image.reference_iff (TypeInfo.form_eq_reference_iff.mpr he)).mp himage
  have hce' := TypeInfo.form_eq_reference_iff.mp hce
  have hc' := hclosed.target hce' hc
  rw [matchWithin, matchStep, he] at h
  dsimp only at h
  split at h
  case isTrue heq =>
    subst heq
    obtain rfl := himage.eq_of_avoids hs.toFormed hclean.avoids
    exact .inl (.self s _)
  split at h
  case h_1 f hf =>
    have hinherit : s.Inherited (s.IsClean σ.replaces) := Store.inherited_isClean hs hsc
    exact .inl fun _ => .of_references hf hce' ((matchWithin_closes hs hsc h).2
      (hinherit.target hf hclean) hagrees .invariant e' himage' hc')
  case h_2 hplain =>
    have hnot := TypeInfo.isByRef_eq_false_iff.mpr hplain
    refine (accepts_of_parameter hs hsc h hclean hagrees himage' hc' hp).imp (fun h w =>
      .of_reference hnot hce' (h w)) fun hloose => ⟨hloose.1, hloose.2.imp ?_ ?_⟩
    · exact .of_reference hnot hce'
    · exact .of_reference hnot hce'

end Closes

/-! ### Closed members -/

/-- A closed member is matched without anything being bound. -/
theorem eq_of_closed_rule {s : Store} (hs : s.WellFormed) (hsc : s.Scoped)
    {source member : TypeId} {v : Variance} {i j : Inference}
    (h : MatchRule s (fun _ _ member i j => s.Closed member → j = { i with cost := j.cost })
      source v member i j) (hm : s.Closed member) : j = { i with cost := j.cost } := by
  have hclosed := Store.inherited_closed hs hsc
  cases h with
  | foreign | same => rfl
  | confirmed hp | converted hp | inverted hp | bound hp => exact absurd hp hm.ne_parameter
  | references _ hmember h => exact h (hclosed.target hmember hm)
  | reference _ hmember h => exact h (hclosed.target hmember hm)
  | elements _ hmember h => exact h (hclosed.element hmember hm)
  | arguments _ _ _ _ _ h =>
    refine h.keeps (P := fun x => x = { i with cost := x.cost })
      (fun pair hpair x y hstep hx => ?_) rfl
    exact (hstep (hclosed.argument (List.of_mem_zip hpair).2 hm)).trans (by rw [hx])
  | widenToInterface _ _ h => exact congrArg (Inference.mapCost _) (h hm)
  | widenToNullable _ _ hu _ _ h =>
    exact h (hclosed.argument (Store.nullableUnderlying_mem hu) hm)
  | widenToBase _ _ _ h => exact congrArg (Inference.mapCost _) (h hm)
  | narrowFromInterface _ _ _ hf h =>
    exact congrArg (Inference.mapCost _)
      (h (hclosed.upward (Store.upward_of_mem_allInterfaces hf) hm))
  | narrowFromNullable _ _ _ h => exact h hm
  | narrowFromBase _ _ hb h => exact congrArg (Inference.mapCost _) (h (hclosed.baseStep hb hm))

/-- **Nothing is bound where nothing is open.** -/
theorem eq_of_closed {s : Store} (hs : s.WellFormed) (hsc : s.Scoped) {depth : Nat}
    {source member : TypeId} {v : Variance} {i j : Inference}
    (h : matchWithin s depth source v member i = .accepted j) :
    s.Closed member → j = { i with cost := j.cost } :=
  matchWithin_induction (M := fun _ _ member i j => s.Closed member → j = { i with cost := j.cost })
    (fun _ _ _ _ _ h => eq_of_closed_rule hs hsc h) h

end CallSite
