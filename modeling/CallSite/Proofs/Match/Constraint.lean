import CallSite.Proofs.Match.Unification

/-!
# Matches respect constraints

A slot is bound before the constraints of its parameter are checked, and the check may bind further
slots, whose parameters have constraints of their own. Still, once a match is accepted every slot
that it bound holds a type that fulfils its parameter, with the bindings put in place of the
parameters in the constraints.

The invariant is `Store.Fulfilled`, which speaks of the slots that were bound between two
inferences, so that one match after another fulfils what both of them bound. What makes it last is
that a constraint which was checked mentions only parameters that are bound by then.

* `Store.Meets`, `Store.Fulfils` – a type has a constraint, and all that a parameter asks for.
* `matchWithin_respects` – every accepted match fulfils what it binds.
-/

namespace CallSite

namespace Store

/-- Each method has one list of parameters. -/
def OneParameterList (s : Store) : Prop :=
  ∀ a b m k, s.form a = .parameter (.method m) k → s.form b = .parameter (.method m) k → a = b

/-- A parameter is told by its owner and its place. -/
theorem OneParameterList.eq_of_form_eq {s : Store} (hone : s.OneParameterList) (hs : s.Formed)
    {a b : TypeId} {o : Owner} {k : Nat} (ha : s.form a = .parameter o k)
    (hb : s.form b = .parameter o k) : a = b := by
  cases o with
  | method m => exact hone a b m k ha hb
  | type t =>
    obtain ⟨shape, own, ht, hk⟩ := hs.parameter_own ha
    obtain ⟨shape', own', ht', hk'⟩ := hs.parameter_own hb
    rw [ht] at ht'
    cases ht'
    exact Option.some.inj (hk.symm.trans hk')

/-- Where a parameter stands is told by its method and its place. -/
theorem OneParameterList.of_place {s : Store} (place : MethodToken → Nat → Nat)
    (h : ∀ a < s.size, (s.info ⟨a⟩).parameter?.all fun p => match p.owner with
      | .type _ => true
      | .method m => place m p.position == a) : s.OneParameterList := by
  have hplace : ∀ t m k, s.form t = .parameter (.method m) k → t = ⟨place m k⟩ := by
    intro t m k ht
    have hheld : s.Holds t := holds_of_form_ne (by rw [ht]; exact Form.noConfusion)
    obtain ⟨p, hp, howner, rfl⟩ := TypeInfo.form_eq_parameter_iff.mp ht
    have hat := h t.index hheld
    rw [TypeInfo.parameter?_eq_some_iff.mpr hp, Option.all_some, howner, beq_iff_eq] at hat
    exact (congrArg TypeId.mk hat).symm
  intro a b m k ha hb
  rw [hplace a m k ha, hplace b m k hb]

/-- **A type has a constraint**, given as it is declared and with its parameters replaced. -/
inductive Meets (s : Store) (b constraint replaced : TypeId) : Prop
  /-- It flows into an interface. -/
  | interface : (s.info constraint).isInterface → s.Accepts b .contravariant replaced →
      Meets s b constraint replaced
  /-- It or one of its bases is any other type. -/
  | ancestor : (s.info constraint).isInterface = false → replaced ∈ s.ancestors b →
      Meets s b constraint replaced

theorem Meets.accepts {s : Store} {b c replaced : TypeId} (h : s.Meets b c replaced)
    (hc : (s.info c).isInterface) : s.Accepts b .contravariant replaced := by
  cases h with
  | interface _ h => exact h
  | ancestor hc' =>
    rw [hc'] at hc
    cases hc

/-- A type has a constraint, with the parameters in it replaced. -/
def MeetsUnder (s : Store) (V : Valuation) (b constraint : TypeId) : Prop :=
  ∃ replaced, s.Holds replaced ∧ Image s V constraint replaced ∧ s.Meets b constraint replaced

/-- **A type has all that a parameter asks for**, with the parameters in constraints replaced. -/
structure Fulfils (s : Store) (V : Valuation) (b : TypeId) (p : GenericParameter) : Prop where
  /-- It has what the special constraints ask for. -/
  flags : satisfiesFlags s b p.flags
  /-- It has the constraints. -/
  constraints : ∀ c ∈ p.constraints, s.MeetsUnder V b c

/-- **What was bound between two inferences** has all that the parameters ask for. -/
def Fulfilled (s : Store) (i j : Inference) : Prop :=
  ∀ x p b, (s.info x).shape = .parameter p → j.owns p → i.bound? p = none → j.bound? p = some b →
    s.Fulfils j.Sends b p

variable {s : Store} {i j k : Inference}

theorem MeetsUnder.of_extends {b c : TypeId} (h : s.MeetsUnder i.Sends b c) (hext : i.Extends j) :
    s.MeetsUnder j.Sends b c := by
  obtain ⟨c', hheld, himage, hmeets⟩ := h
  exact ⟨c', hheld, himage.mono fun _ _ _ _ _ => Inference.Sends.of_extends hext, hmeets⟩

theorem Fulfils.of_extends {b : TypeId} {p : GenericParameter} (h : s.Fulfils i.Sends b p)
    (hext : i.Extends j) : s.Fulfils j.Sends b p :=
  ⟨h.flags, fun c hc => (h.constraints c hc).of_extends hext⟩

/-- Where nothing is bound there is nothing to fulfil. -/
theorem Fulfilled.refl (s : Store) (i : Inference) : s.Fulfilled i i := by
  intro x p b _ _ hnone hb
  rw [hnone] at hb
  cases hb

/-- **One match after another** fulfils what both of them bind. -/
theorem Fulfilled.trans (h : s.Fulfilled i j) (h' : s.Fulfilled j k) (hext : j.Extends k) :
    s.Fulfilled i k := by
  intro x p b hp ho hnone hb
  cases hj : j.bound? p with
  | none => exact h' x p b hp ho hj hb
  | some b' =>
    obtain rfl : b' = b := Option.some.inj ((hext.bound?_of_some hj).symm.trans hb)
    exact (h x p b' hp (hext.owns_eq p ▸ ho) hnone hj).of_extends hext

/-- What was counted does not matter. -/
theorem Fulfilled.of_slots_eq {j' : Inference} (h : s.Fulfilled i j)
    (htype : j'.typeSlots = j.typeSlots) (hmethod : j'.methodSlots = j.methodSlots) :
    s.Fulfilled i j' := by
  cases j
  cases j'
  cases htype
  cases hmethod
  exact h

end Store

/-- **A match respects constraints**: what it binds is fulfilled, and where a source flows into an
interface, it flows into the interface with the bindings put in place. -/
def Respects (s : Store) (owns : GenericParameter → Bool) : MatchRelation :=
  fun source v member i j =>
    Unifies s owns source v member i j ∧
      (s.Ready owns source i → s.Fulfilled i j ∧
        (v = .contravariant → (s.info member).isInterface → s.MeetsUnder j.Sends source member))

/-! ### Every rule respects constraints -/

section Rules

variable {s : Store} {owns : GenericParameter → Bool} {source member : TypeId} {v : Variance}
  {i j : Inference}

/-- The image of an interface is an interface. -/
theorem Image.isInterface {V : Valuation} {m t : TypeId} (h : Image s V m t)
    (hm : (s.info m).isInterface) : (s.info t).isInterface := by
  obtain ⟨d', bs, ht, -⟩ := (named_iff (TypeInfo.form_of_isInterface hm)).mp h
  exact TypeInfo.isInterface_iff.mpr (TypeInfo.form_eq_named_iff.mp ht).1

theorem respects_constraint (hs : s.WellFormed) (hsc : s.Scoped) (href : s.NoInnerReferences)
    {c : TypeId} (hc : (s.info c).isByRef = false)
    (h : ConstraintRule s (Respects s owns) source c i j) (hready : s.Ready owns source i) :
    i.Extends j ∧ s.Ready owns source j ∧ s.Fulfilled i j ∧ s.MeetsUnder j.Sends source c := by
  have hP : s.Inherited (s.IsSource owns) := Store.inherited_isSource hs hsc href
  cases h with
  | interface hint h =>
    obtain ⟨hful, hmeets⟩ := h.2 hready
    exact ⟨h.1.1, h.1.ready hready hready.source, hful, hmeets rfl hint⟩
  | ancestor hint ha h =>
    have hancestor := hP.upward (Store.upward_of_mem_ancestors ha) hready.source
    have hready' : s.Ready owns _ i := ⟨hready.owns_eq, hancestor, hready.bound⟩
    exact ⟨h.1.1, h.1.ready hready' hready.source, (h.2 hready').1, _, hancestor.holds,
      h.1.2.2 hready' rfl hc, (.ancestor hint ha)⟩

/-- Checking one constraint after another. -/
theorem respects_constraints (hs : s.WellFormed) (hsc : s.Scoped) (href : s.NoInnerReferences)
    {cs : List TypeId} (h : Stepwise (ConstraintRule s (Respects s owns) source) cs i j)
    (hcs : ∀ c ∈ cs, (s.info c).isByRef = false) (hready : s.Ready owns source i) :
    i.Extends j ∧ s.Fulfilled i j ∧ ∀ c ∈ cs, s.MeetsUnder j.Sends source c := by
  induction h with
  | nil => exact ⟨.refl _, .refl s _, fun _ hc => absurd hc List.not_mem_nil⟩
  | cons hstep _ ih =>
    obtain ⟨hext, hready', hful, hmeets⟩ :=
      respects_constraint hs hsc href (hcs _ List.mem_cons_self) hstep hready
    obtain ⟨hext', hful', hmeets'⟩ :=
      ih (fun c hc => hcs c (List.mem_cons_of_mem _ hc)) hready'
    refine ⟨hext.trans hext', hful.trans hful' hext', fun c hc => ?_⟩
    rcases List.mem_cons.mp hc with rfl | hc
    · exact hmeets.of_extends hext'
    · exact hmeets' c hc

/-- Matching one argument after another. -/
theorem fulfilled_arguments {pairs : List (TypeId × TypeId)}
    (h : Stepwise (fun pair => Respects s owns pair.1 .invariant pair.2) pairs i j)
    (hpairs : ∀ pair ∈ pairs, s.IsSource owns pair.1) (howns : i.owns = owns)
    (hi : i.All (s.IsSource owns)) : i.Extends j ∧ s.Fulfilled i j := by
  induction h with
  | nil => exact ⟨.refl _, .refl s _⟩
  | cons hpair _ ih =>
    have hready : s.Ready owns _ _ := ⟨howns, hpairs _ List.mem_cons_self, hi⟩
    have hnext := hpair.1.ready hready hready.source
    obtain ⟨hext', hful'⟩ := ih (fun pair hmem => hpairs pair (List.mem_cons_of_mem _ hmem))
      hnext.owns_eq hnext.bound
    exact ⟨hpair.1.1.trans hext', (hpair.2 hready).1.trans hful' hext'⟩

/-- A slot is bound to what its parameter asks for. -/
theorem fulfilled_bound (hs : s.WellFormed) (hsc : s.Scoped) (href : s.NoInnerReferences)
    (hone : s.OneParameterList) {p : GenericParameter} (hp : (s.info member).shape = .parameter p)
    (ho : i.owns p) (hnone : i.bound? p = none) (hflags : satisfiesFlags s source p.flags)
    (h : Stepwise (ConstraintRule s (Respects s owns) source) p.constraints (i.put p source) j)
    (hready : s.Ready owns source i) : s.Fulfilled i j := by
  have hput := Inference.Extends.put source hnone
  have hready' : s.Ready owns source (i.put p source) :=
    ⟨(funext hput.owns_eq).trans hready.owns_eq, hready.source, hready.bound.put hready.source ho⟩
  obtain ⟨hext, hful, hmeets⟩ := respects_constraints hs hsc href h (fun c hc =>
    href.constraint (by rw [TypeInfo.constraints_of_parameter hp]; exact hc)) hready'
  intro x q b hq hoq hnone' hb
  rw [hext.owns_eq] at hoq
  cases hbq : (i.put p source).bound? q with
  | none => exact hful x q b hq (hext.owns_eq q ▸ hoq) hbq hb
  | some b' =>
    -- Then this is the slot that was filled first.
    rw [Inference.owns_put] at hoq
    rcases Inference.bound?_of_put ho hoq hbq with hold | ⟨rfl, howner, hposition⟩
    · rw [hnone'] at hold
      cases hold
    · have hform : s.form x = s.form member := by
        rw [Store.form, Store.form, TypeInfo.form_of_parameter hq, TypeInfo.form_of_parameter hp,
          howner, hposition]
      obtain rfl := hone.eq_of_form_eq hs.toFormed (hform.trans (TypeInfo.form_of_parameter hp))
        (TypeInfo.form_of_parameter hp)
      obtain rfl : p = q := Shape.parameter.inj (hp.symm.trans hq)
      obtain rfl : b' = b := Option.some.inj ((hext.bound?_of_some hbq).symm.trans hb)
      exact ⟨hflags, hmeets⟩

/-- **Each rule respects constraints.** -/
theorem respects_of_rule (hs : s.WellFormed) (hsc : s.Scoped) (href : s.NoInnerReferences)
    (hone : s.OneParameterList) (h : MatchRule s (Respects s owns) source v member i j) :
    Respects s owns source v member i j := by
  have hP : s.Inherited (s.IsSource owns) := Store.inherited_isSource hs hsc href
  have hunifies := unifies_of_rule hs hsc href (h.mono fun _ _ _ _ _ h => h.1)
  refine ⟨hunifies, fun hready => ?_⟩
  have hnext : ∀ {t}, s.IsSource owns t → s.Ready owns t i := fun ht =>
    ⟨hready.owns_eq, ht, hready.bound⟩
  -- Where the image of the member is the source itself, the source meets it.
  have hself : Image s j.Sends member source → (s.info member).isInterface →
      s.MeetsUnder j.Sends source member := fun himage hint =>
    ⟨source, hready.source.holds, himage, (.interface hint (.self s source _))⟩
  -- A parameter or an array is no interface.
  have hnot : ∀ {shape}, (s.info member).shape = shape → shape ≠ .interfaceType →
      ¬ (s.info member).isInterface := fun hshape hne hint =>
    hne (hshape.symm.trans (TypeInfo.isInterface_iff.mp hint))
  cases h with
  | foreign | same =>
    refine ⟨.refl s _, fun _ => hself (Inference.image_self_of_avoids hs.toFormed ?_)⟩
    rw [hready.owns_eq]
    exact hready.source.avoids
  | confirmed hp =>
    exact ⟨.refl s _, fun _ hint => absurd hint (hnot hp (by rintro ⟨⟩))⟩
  | converted hp _ _ _ h | inverted hp _ _ _ h | reference _ hp h =>
    exact ⟨(h.2 hready).1, fun _ hint => absurd hint (hnot hp (by rintro ⟨⟩))⟩
  | bound hp ho hnone hflags h =>
    refine ⟨?_, fun _ hint => absurd hint (hnot hp (by rintro ⟨⟩))⟩
    exact (fulfilled_bound hs hsc href hone hp ho hnone hflags h hready).of_slots_eq rfl rfl
  | references hbyRef =>
    exact absurd hbyRef (TypeInfo.shape_ne_reference hready.source.not_byRef)
  | elements hfs hfm h =>
    exact ⟨(h.2 (hnext (hP.element hfs hready.source))).1,
      fun _ hint => absurd hint (hnot hfm (by rintro ⟨⟩))⟩
  | arguments hp hr hds hdm hlen h =>
    refine ⟨(fulfilled_arguments h (fun pair hmem => hP.argument (List.of_mem_zip hmem).1
      hready.source) hready.owns_eq hready.bound).2, fun _ => hself ?_⟩
    -- The arguments are matched alike under every variance.
    have hinvariant : MatchRule s (Unifies s owns) source .invariant member i j :=
      .arguments hp hr hds hdm hlen (h.mono fun _ _ _ _ h => h.1)
    exact (unifies_of_rule hs hsc href hinvariant).2.2 hready rfl hr
  | @widenToInterface _ _ f _ j hint hf h =>
    have hready' := hnext (hP.upward (Store.upward_of_mem_allInterfaces hf) hready.source)
    have hplain := TypeInfo.plain_of_form_eq_named (TypeInfo.form_of_isInterface hint)
    have himage := h.1.2.2 hready' rfl hplain.2
    refine ⟨(h.2 hready').1.of_slots_eq rfl rfl, fun _ _ => ⟨f, hready'.source.holds, himage,
      (.interface hint ?_)⟩⟩
    exact .of_interface hs.toFormed (himage.isInterface hint) hf (.self s f _)
  | widenToNullable _ _ hu _ _ h =>
    refine ⟨(h.2 hready).1, fun _ hint => ?_⟩
    rw [hs.nullableUnderlying_of_isInterface hint] at hu
    cases hu
  | widenToBase _ _ hb h =>
    obtain ⟨hful, hmeets⟩ := h.2 (hnext (hP.baseStep hb hready.source))
    refine ⟨hful.of_slots_eq rfl rfl, fun hv hint => ?_⟩
    obtain ⟨replaced, hheld, himage, hbase⟩ := hmeets hv hint
    have hplain := TypeInfo.plain_of_form_eq_named
      (TypeInfo.form_of_isInterface (himage.isInterface hint))
    exact ⟨replaced, hheld, himage, .interface hint
      (.of_base hs.toFormed hplain.1 hplain.2 hb (hbase.accepts hint))⟩
  | narrowFromInterface _ _ _ _ h | narrowFromBase _ _ _ h =>
    exact ⟨(h.2 hready).1.of_slots_eq rfl rfl, fun hv => absurd hv (by decide)⟩
  | narrowFromNullable hu _ _ h =>
    exact ⟨(h.2 (hnext (hP.argument (Store.nullableUnderlying_mem hu) hready.source))).1,
      fun hv => absurd hv (by decide)⟩

/-- **Every accepted match respects constraints.** -/
theorem matchWithin_respects (hs : s.WellFormed) (hsc : s.Scoped) (href : s.NoInnerReferences)
    (hone : s.OneParameterList) {depth : Nat}
    (h : matchWithin s depth source v member i = .accepted j) :
    Respects s owns source v member i j :=
  matchWithin_induction (fun _ _ _ _ _ h => respects_of_rule hs hsc href hone h) h

end Rules

end CallSite
