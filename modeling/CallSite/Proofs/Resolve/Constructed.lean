import CallSite.Proofs.Resolve.Ending
import CallSite.Proofs.Type.Commute

/-!
# Candidates on a constructed type

A constructed type and its definition list the same members at the same distances, and where a
member is no generic method, its types on the constructed type are those on the definition with the
parameters replaced (`CallSite.candidates_of_construct`).

The bases of the two types stand in pairs, each pair of one definition, so the same registered
members are looked at. On either side such a member is an image of what is registered: under the
arguments of the base as it stands above the definition, and under the arguments of the base as it
stands above the constructed type. The second arguments are images of the first, and so the second
member is an image of the first (`Member.OnType.imageOf_of_image`). Only on a base that is an array
of a parameter, or a reference to one, does this fail (`CallSite.candidates_differ_above_array`):
members of these are registered on the very type and not on a definition.

* `candidatesOfBoth` – construct a type and list the candidates on its definition and on it.
* `Registry.ScopedIn` – registered members mention only parameters of their declaring type and of
  their own method.
* `Member.SubstitutesTo` – the types of one member are those of another with the parameters
  replaced.
-/

namespace CallSite

/-! ### Members that mention their own parameters only -/

/-- **A member mentions only parameters of its declaring type and of its own method.** -/
def Member.ScopedIn (m : Member) (s : Store) : Prop :=
  ∀ t ∈ m.types, ∀ q, s.Mentions t q → s.Mentions m.declaringType q ∨
    ∃ token k, m.genericMethod = some token ∧ s.form q = .parameter (.method token) k

/-- Every registered member does so. -/
def Registry.ScopedIn (registry : Registry) (s : Store) : Prop :=
  ∀ m ∈ registry.members.toList, m.ScopedIn s

theorem Member.ScopedIn.of_extends {m : Member} {s s' : Store} (h : m.ScopedIn s) (hs : s.Formed)
    (hext : s.Extends s') (hm : m.HeldBy s) : m.ScopedIn s' := by
  intro t ht q hq
  have hq' := (hext.mentions_iff hs (hm t ht)).mp hq
  rw [hext.mentions_iff hs (Member.heldBy_iff.mp hm).1]
  refine (h t ht q hq').imp_right fun hmethod => ?_
  obtain ⟨token, k, htoken, hf⟩ := hmethod
  exact ⟨token, k, htoken, (hext.form_eq (Store.holds_of_form_ne (by rw [hf]; simp))).trans hf⟩

/-- A member that is no generic method mentions only parameters of its declaring type. -/
theorem Member.ScopedIn.mentions {m : Member} {s : Store} (h : m.ScopedIn s)
    (hmethod : m.genericMethod = none) {t q : TypeId} (ht : t ∈ m.types) (hq : s.Mentions t q) :
    s.Mentions m.declaringType q := by
  rcases h t ht q hq with hown | ⟨token, k, htoken, -⟩
  · exact hown
  · exact absurd (hmethod.symm.trans htoken) (Option.some_ne_none token).symm

/-! ### What a substitution makes of a member -/

/-- **The types of a member are those of another one under a substitution.** To replace the
parameters adds nothing to the store. -/
structure Member.SubstitutesTo (m : Member) (s : Store) (σ : Substitution) (m' : Member) :
    Prop where
  /-- The declaring type. -/
  declaringType : CallSite.substitute σ m.declaringType s = .ok m'.declaringType s
  /-- The parameters. -/
  parameters : m.parameters.mapM (Member.substituteParameter σ) s = .ok m'.parameters s
  /-- The type of the value. -/
  valueType : m.valueType.mapM (CallSite.substitute σ) s = .ok m'.valueType s

theorem Member.ImageOf.substitutesTo {s : Store} {σ : Substitution} {m m' : Member}
    (h : m.ImageOf s σ m') (hs : s.Formed) (hm : m.HeldBy s) (hm' : m'.HeldBy s) :
    m.SubstitutesTo s σ m' := by
  obtain ⟨hdeclaring, hparameters, hvalue, -, -⟩ := heldBy_iff.mp hm
  obtain ⟨hdeclaring', hparameters', hvalue', -, -⟩ := heldBy_iff.mp hm'
  refine ⟨substitute_of_image hs h.declaringType hdeclaring hdeclaring', mapM_of_fixed
    (forall₂_imp_of_mem h.parameters fun p hp p' hp' hpp' => ?_), ?_⟩
  · obtain ⟨hsame, himage⟩ := hpp'
    rw [substituteParameter,
      bind_apply_of_ok (substitute_of_image hs himage (hparameters p hp) (hparameters' p' hp')),
      ← hsame]
    rfl
  · have himage := h.valueType
    generalize m.valueType = o at himage hvalue
    generalize m'.valueType = o' at himage hvalue'
    cases himage with
    | none => rfl
    | @some t t' htt' =>
      rw [Option.mapM_some]
      exact map_apply_of_ok (substitute_of_image hs htt' (hvalue t rfl) (hvalue' t' rfl)) _

namespace Member.OnType

variable {s : Store} {t : TypeId} {m o k : Member}

/-- On a type that was not constructed a member is what is registered. -/
theorem eq_of_definition (h : m.OnType s t o) (hdef : (s.info t).definition = none) : o = m := by
  cases h with
  | registered => rfl
  | instantiated hdef' => exact absurd (hdef.symm.trans hdef') (Option.some_ne_none _).symm

/-- **On a named type a member is an image of what is registered**, under the arguments of that
type, unless it is a generic method. -/
theorem imageOf_forType (h : m.OnType s t o) (hs : s.WellFormed) {shape : Shape}
    {d : Option TypeId} {args : List TypeId} (hf : s.form t = .named shape d args)
    (hdeclaring : m.declaringType = s.head t) (hmethod : m.genericMethod = none)
    (hscoped : m.ScopedIn s) : m.ImageOf s (.forType (s.head t) args) o := by
  cases h with
  | registered hdef =>
    obtain ⟨-, rfl, -⟩ := TypeInfo.form_eq_named_iff.mp hf
    rw [hdef] at hf
    rw [Store.head_of_named hf] at hdeclaring ⊢
    -- The own parameters of a definition are put in place of themselves.
    refine .self fun u hu => .self hs.toFormed fun q p hq hp => ?_
    have hown := hscoped.mentions hmethod hu hq
    rw [hdeclaring] at hown
    obtain ⟨k, hk, hlookup⟩ := hs.lookup_own hf hown hp
    rw [Substitution.Sends, Option.getD_none, hlookup, hk]
    rfl
  | instantiated hdef hpart hτ himage =>
    rw [Store.head, hdef, ← Store.arguments_of_named hf]
    have hopen : m.openMethod = none := by
      rw [openMethod, hmethod, ite_self]
    exact hτ hopen ▸ himage

/-- **On a named type and on an image of it** a member is an image as well, unless it is a generic
method. -/
theorem imageOf_of_named {σ : Substitution} {u : TypeId} (ho : m.OnType s t o)
    (hk : m.OnType s u k) (hs : s.WellFormed) {shape : Shape} {d : Option TypeId}
    {args : List TypeId} (hf : s.form t = .named shape d args) (himage : Image s σ.Sends t u)
    (hdeclaring : m.declaringType = s.head t) (hmethod : m.genericMethod = none)
    (hscoped : m.ScopedIn s) : o.ImageOf s σ k := by
  obtain ⟨d', bs, hfu, hhead, hargs⟩ := (Image.named_iff hf).mp himage
  have ho' := ho.imageOf_forType hs hf hdeclaring hmethod hscoped
  have hk' := hk.imageOf_forType hs hfu (hdeclaring.trans hhead.symm) hmethod hscoped
  rw [hhead] at hk'
  obtain ⟨own, hown, hlen⟩ := hs.form_head hf
  refine ho'.between hk' fun x hx v w => hs.toFormed.image_of_arguments hown hlen
    (hlen.trans (Image.length_eq hs.toFormed hf hfu hhead).symm) hargs fun q hq => ?_
  rw [← hdeclaring]
  exact hscoped.mentions hmethod hx hq

end Member.OnType

/-! ### Lists of candidates -/

section Listed

variable {s : Store} {registry : Registry} {access : Access} {query : Query}

/-- The same members are listed for types whose bases stand in pairs of one definition. -/
theorem forall₂_listed (registry : Registry) {R : TypeId → TypeId → Prop} {x y : TypeId}
    (h : List.Forall₂ R (searchedTypes s access query.kind x)
      (searchedTypes s access query.kind y))
    (hhead : ∀ a b, R a b → s.head b = s.head a) :
    List.Forall₂ (fun e e' => e'.1 = e.1 ∧ e'.2.2 = e.2.2 ∧ R e.2.1 e'.2.1 ∧
      e.1 ∈ registry.declared (s.head e.2.1) query.kind) (listed registry access query s x)
      (listed registry access query s y) := by
  refine List.rel_flatMap (forall₂_zipIdx h 0) fun a b hab => ?_
  obtain ⟨a, depth⟩ := a
  obtain ⟨b, depth'⟩ := b
  obtain ⟨hR, hdepth⟩ := hab
  dsimp only at hR hdepth ⊢
  rw [hhead _ _ hR, hdepth, List.forall₂_map_left_iff, List.forall₂_map_right_iff]
  exact List.forall₂_same.mpr fun m hm => ⟨rfl, rfl, hR, (List.mem_filter.mp hm).1⟩

theorem listed_of_extends {s' : Store} (hs : s.WellFormed) (hext : s.Extends s') {t : TypeId}
    (ht : s.Holds t) :
    listed registry access query s' t = listed registry access query s t := by
  have hsearched : searchedTypes s' access query.kind t = searchedTypes s access query.kind t := by
    rw [searchedTypes, searchedTypes, Store.ancestors_of_extends hs hext ht]
  rw [listed, listed, hsearched, List.flatMap_def, List.flatMap_def]
  congr 1
  refine List.map_congr_left fun item hitem => ?_
  have hhead := hext.head_eq (holds_searchedTypes hs ht (List.fst_mem_of_mem_zipIdx hitem))
  obtain ⟨declaring, depth⟩ := item
  dsimp only at hhead ⊢
  rw [hhead]

/-- **The candidates on a definition and on a type constructed from it.** -/
def candidatesOfBoth (registry : Registry) (access : Access) (query : Query) (d : TypeId)
    (args : List TypeId) : TypeM (TypeId × List (Member × Nat) × List (Member × Nat)) := do
  let c ← construct d args
  let opened ← candidates registry access query d
  let closed ← candidates registry access query c
  return (c, opened, closed)

/-- Candidates are made from what is listed. -/
def MadeFrom (s : Store) : List (Member × TypeId × Nat) → List (Member × Nat) → Prop :=
  List.Forall₂ fun entry candidate => candidate.2 = entry.2.2 ∧
    entry.1.MadeOn s entry.2.1 candidate.1

theorem builds_candidatesOfBoth (hs : s.WellFormed) (hregistry : registry.HeldBy s)
    (access : Access) (query : Query) {d : TypeId} {args : List TypeId} (hd : s.Holds d)
    (hargs : ∀ a ∈ args, s.Holds a) (hdef : (s.info d).isDefinition)
    (harity : (s.info d).arguments.length = args.length) :
    Builds (candidatesOfBoth registry access query d args) s fun found s' =>
      s'.IsConstructed d args found.1 ∧
      MadeFrom s' (listed registry access query s' d) found.2.1 ∧
      MadeFrom s' (listed registry access query s' found.1) found.2.2 := by
  refine (builds_construct hs hargs hdef harity).bind hs fun c s₁ h₁ hc => ?_
  refine (builds_candidates h₁.wellFormed (hregistry.of_extends h₁.toExtends) (h₁.holds hd) access
    query).bind h₁.wellFormed fun opened s₂ h₂ hopened => ?_
  refine (builds_candidates h₂.wellFormed (hregistry.of_extends (h₁.trans h₂).toExtends)
    (h₂.holds hc.holds) access query).bind h₂.wellFormed fun closed s₃ h₃ hclosed => ?_
  refine .pure h₃.wellFormed ⟨hc.of_extends (h₂.trans h₃).toExtends, ?_, ?_⟩
  · rw [listed_of_extends h₁.wellFormed (h₂.trans h₃).toExtends (h₁.holds hd)]
    exact hopened.imp fun _ _ h => ⟨h.1, h.2.of_extends h₂.wellFormed.toFormed h₃.toExtends⟩
  · rw [listed_of_extends h₂.wellFormed h₃.toExtends (h₂.holds hc.holds)]
    exact hclosed

/-- **Both lists are made where hierarchies end.** -/
theorem candidatesOfBoth_succeeds (hs : s.WellFormed) (hends : s.Ends)
    (hregistry : registry.HeldBy s) (access : Access) (query : Query) {d : TypeId}
    {args : List TypeId} (hargs : ∀ a ∈ args, s.Holds a) (hdef : (s.info d).isDefinition)
    (harity : (s.info d).arguments.length = args.length) :
    Succeeds (candidatesOfBoth registry access query d args) s := by
  have hconstruct : Runs (construct d args) s :=
    (construct_succeeds hs hends (.refl s) hs (Store.holds_of_isDefinition hdef) hargs hdef
      harity).runs (builds_construct hs hargs hdef harity).ensures
  refine hconstruct.bind_succeeds fun c s₁ h₁ => ?_
  refine (candidates_runs hs hends h₁.toExtends h₁.wellFormed hregistry access query
    d).bind_succeeds fun _ s₂ h₂ => ?_
  exact (candidates_runs hs hends (h₁.trans h₂).toExtends h₂.wellFormed hregistry access query
    c).bind_succeeds fun _ _ _ => .pure _ _

end Listed

/-! ### Both lists agree -/

/-- Types stand in pairs along two chains of bases: one is an image of the other and has its
definition. -/
structure Store.Paired (s : Store) (σ : Substitution) (x y : TypeId) : Prop where
  /-- It is an image. -/
  image : Image s σ.Sends x y
  /-- It is no array or reference that mentions a parameter. -/
  named : ∀ q, s.Mentions x q → ∃ shape d args, s.form x = .named shape d args

namespace Store.Paired

variable {s : Store} {σ : Substitution} {x y : TypeId}

/-- An array or a reference is paired with itself only. -/
theorem closed (h : s.Paired σ x y) (hs : s.Formed)
    (hnamed : ¬ ∃ shape d args, s.form x = .named shape d args) :
    x = y ∧ ∀ q, ¬ s.Mentions x q := by
  have hclosed : ∀ q, ¬ s.Mentions x q := fun q hq => hnamed (h.named q hq)
  exact ⟨(h.image.eq_self hs fun q _ _ hq => absurd hq (hclosed q)).symm, hclosed⟩

theorem head_eq (h : s.Paired σ x y) (hs : s.Formed) : s.head y = s.head x := by
  by_cases hnamed : ∃ shape d args, s.form x = .named shape d args
  · obtain ⟨shape, d, args, hf⟩ := hnamed
    obtain ⟨-, -, -, hhead, -⟩ := (Image.named_iff hf).mp h.image
    exact hhead
  · rw [(h.closed hs hnamed).1]

/-- **The bases of a pair** are images as well. -/
theorem base (h : s.Paired σ x y) (hs : s.WellFormed) (horderly : s.Orderly) :
    Option.Rel (Image s σ.Sends) (s.info x).base (s.info y).base := by
  by_cases hnamed : ∃ shape d args, s.form x = .named shape d args
  · obtain ⟨shape, d, args, hf⟩ := hnamed
    exact (horderly.derives_of_named hs hf h.image).base
  · obtain ⟨rfl, hclosed⟩ := h.closed hs.toFormed hnamed
    cases hb : (s.info x).base with
    | none => exact .none
    | some b =>
      have hscope := horderly.in_scope x b (TypeInfo.base_mem_above hb)
      exact .some (.self hs.toFormed fun q _ hq _ => absurd (hscope q hq) (hclosed q))

/-- **What is registered for a pair** is on the one type an image of what it is on the other, unless
it is a generic method. -/
theorem imageOf (h : s.Paired σ x y) (hs : s.WellFormed) {m o k : Member} (ho : m.OnType s x o)
    (hk : m.OnType s y k) (hdeclaring : m.declaringType = s.head x)
    (hmethod : m.genericMethod = none) (hscoped : m.ScopedIn s) : o.ImageOf s σ k := by
  by_cases hnamed : ∃ shape d args, s.form x = .named shape d args
  · obtain ⟨shape, d, args, hf⟩ := hnamed
    exact ho.imageOf_of_named hk hs hf h.image hdeclaring hmethod hscoped
  · obtain ⟨rfl, hclosed⟩ := h.closed hs.toFormed hnamed
    have hdef := (hs.unnamed fun shape d args hf => hnamed ⟨shape, d, args, hf⟩).1
    rw [Store.head, hdef, Option.getD_none] at hdeclaring
    rw [ho.eq_of_definition hdef, hk.eq_of_definition hdef]
    refine .self fun t ht => .self hs.toFormed fun q _ hq _ => ?_
    have hown := hscoped.mentions hmethod ht hq
    rw [hdeclaring] at hown
    exact absurd hown (hclosed q)

/-- **The types that are searched** on a definition and on an image of it stand in pairs. -/
theorem searchedTypes (h : s.Paired σ x y) (hs : s.WellFormed) (horderly : s.Orderly)
    {l : List TypeId} (hl : s.BaseChain x l)
    (hnamed : ∀ a ∈ l, ∀ q, s.Mentions a q → ∃ shape d args, s.form a = .named shape d args)
    (access : Access) (kind : MemberKind) :
    List.Forall₂ (s.Paired σ) (CallSite.searchedTypes s access kind x)
      (CallSite.searchedTypes s access kind y) := by
  unfold CallSite.searchedTypes
  split
  · exact .cons h .nil
  -- The pairs along both chains, where the first type is always one of its chain.
  have hbase : ∀ x y, s.Paired σ x y ∧ x ∈ l →
      Option.Rel (fun x y => s.Paired σ x y ∧ x ∈ l) (s.info x).base (s.info y).base :=
    fun x y hxy => rel_imp_of_mem (hxy.1.base hs horderly) fun b _ hb _ himage =>
      have hmem := hl.base_mem hxy.2 hb
      ⟨⟨himage, hnamed b hmem⟩, hmem⟩
  obtain ⟨l', hl', hall⟩ := hl.related hbase ⟨h, hl.head_mem⟩
  rw [hl.ancestors_eq, hl'.ancestors_eq]
  exact hall.imp fun _ _ hab => hab.1

end Store.Paired

/-- **Candidates on types that are searched in pairs** are the same members at the same distances,
and have the same types but for the parameters. -/
theorem forall₂_candidates {s : Store} (hs : s.WellFormed) {registry : Registry}
    (hscoped : registry.ScopedIn s) {access : Access} {query : Query} {σ : Substitution}
    {x y : TypeId} (hpaired : List.Forall₂ (s.Paired σ) (searchedTypes s access query.kind x)
      (searchedTypes s access query.kind y)) {opened closed : List (Member × Nat)}
    (hopened : MadeFrom s (listed registry access query s x) opened)
    (hclosed : MadeFrom s (listed registry access query s y) closed) :
    List.Forall₂ (fun o k => k.1.id = o.1.id ∧ k.2 = o.2 ∧
      (o.1.genericMethod = none → o.1.SubstitutesTo s σ k.1)) opened closed := by
  have hf := hs.toFormed
  have hlisted := forall₂_listed registry hpaired fun x y h => h.head_eq hf
  -- Both lists are made from what is listed on the first type.
  have hboth := forall₂_between (S := fun (e : Member × TypeId × Nat) (k : Member × Nat) =>
      k.2 = e.2.2 ∧ e.1 ∈ registry.declared (s.head e.2.1) query.kind ∧
        ∃ u, s.Paired σ e.2.1 u ∧ e.1.MadeOn s u k.1) hlisted.flip hclosed
    fun e' _ e k hee' hk => by
      obtain ⟨hmember, hdepth, hpair, hmem⟩ := hee'
      exact ⟨hk.1.trans hdepth, hmem, e'.2.1, hpair, hmember ▸ hk.2⟩
  refine forall₂_between hopened hboth fun e _ o k ho hk => ?_
  obtain ⟨hdepth, hmade⟩ := ho
  obtain ⟨hdepth', hmem, u, hpair, hmade'⟩ := hk
  obtain ⟨τ, himage⟩ := hmade.onType.imageOf hf
  obtain ⟨τ', himage'⟩ := hmade'.onType.imageOf hf
  refine ⟨himage'.id_eq.trans himage.id_eq.symm, hdepth'.trans hdepth.symm, fun hmethod => ?_⟩
  have hnone : e.1.genericMethod = none := by
    rw [← Option.not_isSome_iff_eq_none, ← himage.genericMethod_eq, hmethod]
    exact Bool.false_ne_true
  obtain ⟨hregistered, hdeclaring⟩ := List.mem_filter.mp hmem
  simp only [Bool.and_eq_true, decide_eq_true_eq] at hdeclaring
  exact (hpair.imageOf hs hmade.onType hmade'.onType hdeclaring.1 hnone
    (hscoped _ hregistered)).substitutesTo hf hmade.made hmade'.made

open Store in
/-- **A constructed type lists what its definition lists.** After an orderly run, let the chain of
bases of a definition end, let no type of the chain be an array or a reference that mentions a
parameter, and let registered members mention only parameters of their own. Where the construction
and the substitutions do not expand without end, the candidates on the definition and on the
constructed type are the same registered members at the same distances, in the same order. Those
that are no generic methods have the same types but for the parameters, which are replaced. Where
hierarchies end nothing expands without end (`candidatesOfBoth_succeeds`). -/
theorem candidates_of_construct {s : Store} (hreach : s.Reachable Operation.Orderly)
    {registry : Registry} (hregistry : registry.HeldBy s) (hscoped : registry.ScopedIn s)
    (access : Access) (query : Query) {d : TypeId} {args : List TypeId}
    (hargs : ∀ a ∈ args, s.Holds a) (hdef : (s.info d).isDefinition)
    (harity : (s.info d).arguments.length = args.length) (hends : ∃ l, s.BaseChain d l)
    (hnamed : ∀ a ∈ s.ancestors d, ∀ q, s.Mentions a q → ∃ shape d args,
      s.form a = .named shape d args)
    (hfinite : ∀ e s', candidatesOfBoth registry access query d args s = .error e s' →
      ¬ e.IsEndless) :
    ∃ c opened closed s',
      candidatesOfBoth registry access query d args s = .ok (c, opened, closed) s' ∧
      List.Forall₂ (fun o k => k.1.id = o.1.id ∧ k.2 = o.2 ∧ (o.1.genericMethod = none →
        o.1.SubstitutesTo s' (.forType d args) k.1)) opened closed := by
  have hs := hreach.wellFormed
  have hd := holds_of_isDefinition hdef
  have hbuilds := builds_candidatesOfBoth hs hregistry access query hd hargs hdef harity
  cases hrun : candidatesOfBoth registry access query d args s with
  | error e s' => exact absurd (hbuilds.of_error hrun).2 (hfinite e s' hrun)
  | ok found s' =>
  obtain ⟨c, opened, closed⟩ := found
  obtain ⟨hgrown, hcompleted, hc, hopened, hclosed⟩ := hbuilds.of_ok hrun
  have hs' := hgrown.wellFormed
  obtain ⟨l, hl⟩ := hends
  rw [hl.ancestors_eq] at hnamed
  have hnamed' : ∀ a ∈ l, ∀ q, s'.Mentions a q → ∃ shape d args,
      s'.form a = .named shape d args := fun a ha q hq => by
    have hheld := (upward_of_mem_ancestors (hl.ancestors_eq ▸ ha)).holds hs hd
    rw [hgrown.form_eq hheld]
    exact hnamed a ha q ((hgrown.mentions_iff hs.toFormed hheld).mp hq)
  have hfirst : s'.Paired (.forType d args) d c :=
    ⟨hc.image_definition hs'.toFormed, hnamed' d hl.head_mem⟩
  exact ⟨c, opened, closed, s', rfl, forall₂_candidates hs'
    (fun m hm => (hscoped m hm).of_extends hs.toFormed hgrown.toExtends (hregistry m hm))
    (hfirst.searchedTypes hs' (hreach.orderly_store.of_grown hs hgrown hcompleted)
      (hl.of_extends hs hgrown.toExtends hd) hnamed' access query.kind) hopened hclosed⟩

/-! ### Candidates that agree, and some that do not -/

/-- The test whether the types of registered members are there and mention only parameters of the
declaring type. -/
def Registry.isScopedIn (registry : Registry) (s : Store) : Bool :=
  registry.members.toList.all fun m => m.types.all fun t => t.index < s.size &&
    (s.mentioned t).all (· ∈ s.mentioned m.declaringType)

theorem Registry.of_isScopedIn (registry : Registry) {s : Store} (hs : s.Formed)
    (h : registry.isScopedIn s) : registry.HeldBy s ∧ registry.ScopedIn s := by
  simp only [isScopedIn, List.all_eq_true, Bool.and_eq_true, decide_eq_true_eq] at h
  have hheld : registry.HeldBy s := fun m hm t ht => (h m hm t ht).1
  refine ⟨hheld, fun m hm t ht q hq => .inl ?_⟩
  rw [← Store.mem_mentioned_iff hs (Member.heldBy_iff.mp (hheld m hm)).1]
  exact (h m hm t ht).2 q ((Store.mem_mentioned_iff hs (hheld m hm t ht)).mpr hq)

/-- Something can be put into what is derived and into its base. -/
def derivedRegistry : Registry :=
  ((({} : Registry).declare (.method "Put" ⟨27⟩
    [{ position := 0, name := none, type := ⟨28⟩ }] Core.void)).2.declare
    (.method "Put" ⟨29⟩ [{ position := 0, name := none, type := ⟨30⟩ }] Core.void)).2

/-- What is derived lists both methods, and so does its construction for integers. -/
theorem candidates_of_construct_derived :
    ∃ c opened closed s',
      candidatesOfBoth derivedRegistry Access.usual { kind := .method, name := "Put" } ⟨29⟩
        [Core.int32] (Store.initial.afterAll derivedRun) = .ok (c, opened, closed) s' ∧
      opened.map (fun o => (o.1.id, o.2)) = [(2, 0), (1, 1)] ∧
      List.Forall₂ (fun o k => k.1.id = o.1.id ∧ k.2 = o.2 ∧ (o.1.genericMethod = none →
        o.1.SubstitutesTo s' (.forType ⟨29⟩ [Core.int32]) k.1)) opened closed := by
  have hreach := reachable_derivedRun.mono fun _ _ h => h.1
  obtain ⟨hregistry, hscoped⟩ := Registry.of_isScopedIn derivedRegistry
    hreach.wellFormed.toFormed (by decide +kernel)
  have hnamed : ∀ a ∈ (Store.initial.afterAll derivedRun).ancestors ⟨29⟩,
      (Store.initial.afterAll derivedRun).form a =
        .named ((Store.initial.afterAll derivedRun).info a).shape
          ((Store.initial.afterAll derivedRun).info a).definition
          ((Store.initial.afterAll derivedRun).info a).arguments := by
    decide +kernel
  have hlisted : succeedsWith (candidatesOfBoth derivedRegistry Access.usual
      { kind := .method, name := "Put" } ⟨29⟩ [Core.int32]) (Store.initial.afterAll derivedRun)
      (fun found _ => found.2.1.map (fun o => (o.1.id, o.2)) = [(2, 0), (1, 1)]) := by
    decide +kernel
  have hargs : ∀ a ∈ [Core.int32], (Store.initial.afterAll derivedRun).Holds a := fun a ha => by
    obtain rfl := List.mem_singleton.mp ha
    change Core.int32.index < (Store.initial.afterAll derivedRun).size
    decide +kernel
  obtain ⟨c, opened, closed, s', hrun, hagree⟩ := candidates_of_construct hreach hregistry hscoped
    Access.usual { kind := .method, name := "Put" } (d := ⟨29⟩) hargs
    (by decide +kernel) (by decide +kernel) ⟨_, .step (b := ⟨31⟩) (by decide +kernel)
      (.step (b := ⟨0⟩) (by decide +kernel) (.last (by decide +kernel)))⟩
    (fun a ha _ _ => ⟨_, _, _, hnamed a ha⟩)
    fun _ _ hrun => absurd hrun (candidatesOfBoth_succeeds hreach.wellFormed ends_derivedRun
      hregistry Access.usual { kind := .method, name := "Put" } hargs (by decide +kernel)
      (by decide +kernel)).ne_error
  obtain ⟨found, s'', hrun', htest⟩ := exists_of_succeedsWith hlisted
  obtain ⟨rfl, rfl⟩ := EStateM.Result.ok.inj (hrun'.symm.trans hrun)
  exact ⟨c, opened, closed, s'', hrun, of_decide_eq_true htest, hagree⟩

/-- A run that makes a generic class whose base is the arrays of its parameter. -/
def rackRun : List Operation :=
  [.define "Rack" .classKind ["T"], .arrayOf ⟨28⟩ 1, .setBase ⟨27⟩ ⟨30⟩]

/-- Such an array has a field. -/
def rackRegistry : Registry :=
  (({} : Registry).declare (.field "Top" ⟨30⟩ ⟨28⟩)).2

/-- **Members of arrays are not inherited alike**: what is registered on the arrays of a parameter
is listed for the definition above which they stand, and is not listed for what is constructed from
it. -/
theorem candidates_differ_above_array :
    ((Store.initial.afterAll rackRun).Reachable fun s op => op.Orderly s ∧ op.LeavesMade s) ∧
    rackRegistry.HeldBy (Store.initial.afterAll rackRun) ∧
    rackRegistry.ScopedIn (Store.initial.afterAll rackRun) ∧
    (∃ l, (Store.initial.afterAll rackRun).BaseChain ⟨27⟩ l) ∧
    ∃ c opened s', candidatesOfBoth rackRegistry Access.usual { kind := .field, name := "Top" } ⟨27⟩
        [Core.int32] (Store.initial.afterAll rackRun) = .ok (c, opened, []) s' ∧
      opened.map (fun o => (o.1.id, o.2)) = [(1, 1)] := by
  have hreach : (Store.initial.afterAll rackRun).Reachable fun s op =>
      op.Orderly s ∧ op.LeavesMade s := .of_orderlyRun (by decide +kernel)
  obtain ⟨hregistry, hscoped⟩ := Registry.of_isScopedIn rackRegistry
    hreach.wellFormed.toFormed (by decide +kernel)
  refine ⟨hreach, hregistry, hscoped, ⟨_, .step (b := ⟨30⟩) (by decide +kernel)
    (.step (b := Core.array) (by decide +kernel) (.step (b := ⟨0⟩) (by decide +kernel)
      (.last (by decide +kernel))))⟩, ?_⟩
  have hrun : succeedsWith (candidatesOfBoth rackRegistry Access.usual
      { kind := .field, name := "Top" } ⟨27⟩ [Core.int32]) (Store.initial.afterAll rackRun)
      (fun found _ => found.2.1.map (fun o => (o.1.id, o.2)) = [(1, 1)] ∧ found.2.2 = []) := by
    decide +kernel
  obtain ⟨found, s', hfound, htest⟩ := exists_of_succeedsWith hrun
  obtain ⟨hopened, hclosed⟩ := of_decide_eq_true htest
  exact ⟨found.1, found.2.1, s', hclosed ▸ hfound, hopened⟩

end CallSite
