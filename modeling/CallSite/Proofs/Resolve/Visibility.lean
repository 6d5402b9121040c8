import CallSite.Proofs.Resolve.Answer
import CallSite.Proofs.Resolve.Candidates
import CallSite.Proofs.Type.Commute

/-!
# What an answer lets be seen

A member passes the mask as it was registered, and an answer shows it with its types replaced: by
the type on which it is found, by the arguments that are inferred for a definition, and by those of
a generic method. None of this touches what the mask asks for, and the declaring type ends up being
the very type among the ancestors of the queried one on which the member was found
(`CallSite.resolved_seenFrom`).
-/

namespace CallSite

/-- **A member is seen from a type** at a distance, under a mask, by a query. -/
structure Member.SeenFrom (m : Member) (s : Store) (access : Access) (query : Query) (t : TypeId)
    (depth : Nat) : Prop where
  /-- It is of the kind that is looked for. -/
  kind_eq : m.kind = query.kind
  /-- It has the name that is looked for. -/
  nameMatches : access.nameMatches m.name query.name
  /-- The mask allows its visibility and its scope. -/
  admits : access.admits m.visibility m.isStatic
  /-- The type that declares it stands at that distance. -/
  declaredBy : (s.ancestors t)[depth]? = some m.declaringType
  /-- What a base declares is not private, and is static only if the mask asks for that. Neither the
  mask nor the kind of the member keeps it from being inherited. -/
  inherited : 0 < depth → m.visibility ≠ .owner ∧
    (m.isStatic → access.contains Access.flattenHierarchy) ∧
    access.contains Access.declaredOnly = false ∧ m.kind ≠ .constructor

/-- A type mentions a parameter of a method. -/
def Store.MentionsMethod (s : Store) (t : TypeId) : Prop :=
  ∃ q token position, s.Mentions t q ∧ s.form q = .parameter (.method token) position

namespace Member.SeenFrom

variable {m m' : Member} {s s' : Store} {access : Access} {query : Query} {t : TypeId} {depth : Nat}

theorem of_extends (h : m.SeenFrom s access query t depth) (hs : s.WellFormed)
    (hext : s.Extends s') (ht : s.Holds t) : m.SeenFrom s' access query t depth :=
  { h with declaredBy := by rw [Store.ancestors_of_extends hs hext ht]; exact h.declaredBy }

/-- An image of the member is seen as well, if the declaring type is the same. -/
theorem of_imageOf (h : m.SeenFrom s access query t depth) {σ : Substitution}
    (himage : m.ImageOf s' σ m') (hsame : m'.declaringType = m.declaringType)
    (hancestors : s'.ancestors t = s.ancestors t) : m'.SeenFrom s' access query t depth := by
  refine ⟨himage.kind_eq.trans h.kind_eq, ?_, ?_, ?_, fun hdepth => ?_⟩
  · rw [himage.name_eq]
    exact h.nameMatches
  · rw [himage.visibility_eq, himage.isStatic_eq]
    exact h.admits
  · rw [hancestors, hsame]
    exact h.declaredBy
  · rw [himage.visibility_eq, himage.isStatic_eq, himage.kind_eq]
    exact h.inherited hdepth

end Member.SeenFrom

section Candidates

variable {s s' : Store} {registry : Registry} {t : TypeId} {access : Access} {query : Query}

/-- What is searched are the ancestors of the queried type, and more than the type itself only if
the mask and the kind allow it. -/
theorem getElem?_searchedTypes {kind : MemberKind} {depth : Nat} {a : TypeId}
    (h : (searchedTypes s access kind t)[depth]? = some a) : (s.ancestors t)[depth]? = some a ∧
      (0 < depth → access.contains Access.declaredOnly = false ∧ kind ≠ .constructor) := by
  unfold searchedTypes at h
  split at h
  case isTrue =>
    cases depth with
    | zero =>
      refine ⟨?_, fun hdepth => absurd hdepth (Nat.lt_irrefl 0)⟩
      rw [← List.head?_eq_getElem?, s.head?_ancestors]
      exact h
    | succ depth => cases h
  case isFalse hnot =>
    simp only [Bool.or_eq_true, decide_eq_true_eq, not_or, Bool.not_eq_true] at hnot
    exact ⟨h, fun _ => hnot⟩

/-- **A candidate is seen from the queried type.** -/
theorem seenFrom_of_candidates (hs : s.WellFormed) (hregistry : registry.HeldBy s)
    (ht : s.Holds t) {found : List (Member × Nat)}
    (h : candidates registry access query t s = .ok found s') {candidate : Member × Nat}
    (hmem : candidate ∈ found) : candidate.1.SeenFrom s' access query t candidate.2 := by
  obtain ⟨hgrown, -, hfound⟩ := (builds_candidates hs hregistry ht access query).of_ok h
  obtain ⟨⟨m, declaring, depth⟩, hentry, hdepth, hmade⟩ := exists_mem_of_forall₂_right hfound hmem
  obtain ⟨item, hitem, hentry⟩ := List.mem_flatMap.mp hentry
  obtain ⟨m', hm, hsame⟩ := List.mem_map.mp hentry
  cases hsame
  obtain ⟨hm, hpasses⟩ := List.mem_filter.mp hm
  obtain ⟨hancestor, hinherits⟩ := getElem?_searchedTypes (List.mem_zipIdx_iff_getElem?.mp hitem)
  -- The registered member is declared by the definition, and passes.
  have hdeclared : m.declaringType = s.head item.1 ∧ m.kind = query.kind := by
    simpa using (List.mem_filter.mp hm).2
  simp only [isCandidate, Bool.and_eq_true] at hpasses
  obtain ⟨⟨hinherited, hname⟩, hadmits⟩ := hpasses
  have hheld := ((Store.upward_of_mem_ancestors (List.mem_of_getElem? hancestor)).holds hs ht)
  obtain ⟨σ, himage⟩ := hmade.onType.imageOf hgrown.wellFormed.toFormed
  have hseen : m.kind = query.kind ∧ access.nameMatches m.name query.name ∧
      access.admits m.visibility m.isStatic := ⟨hdeclared.2, hname, hadmits⟩
  rw [← himage.kind_eq, ← himage.name_eq, ← himage.visibility_eq, ← himage.isStatic_eq] at hseen
  refine ⟨hseen.1, hseen.2.1, hseen.2.2, ?_, fun hpos => ?_⟩
  · rw [Store.ancestors_of_extends hs hgrown.toExtends ht, hdepth, hancestor,
      hmade.onType.declaringType_eq hgrown.wellFormed.toFormed
        (hdeclared.1.trans (hgrown.head_eq hheld).symm)]
  · rw [hdepth] at hpos
    obtain ⟨honly, hkind⟩ := hinherits hpos
    rw [himage.visibility_eq, himage.isStatic_eq, hseen.1]
    simp only [Nat.ne_of_gt hpos, decide_false, Bool.false_or, Bool.and_eq_true, Bool.or_eq_true,
      decide_eq_true_eq, Bool.not_eq_true'] at hinherited
    refine ⟨hinherited.1, fun hstatic => hinherited.2.resolve_left ?_, honly, hkind⟩
    rw [hstatic]
    exact Bool.noConfusion

end Candidates

/-! ### The answer -/

/-- **Method arguments do not matter**: a winner that is given its arguments is seen from where it
was found, if no ancestor mentions a parameter of a method. -/
theorem seenFrom_of_close {s s' : Store} (hs : s.WellFormed) {m m' : Member} (hm : m.HeldBy s)
    {access : Access} {query : Query} {t : TypeId} {depth : Nat} (ht : s.Holds t)
    (hseen : m.SeenFrom s access query t depth) {token : MethodToken} {args : List TypeId}
    (hargs : ∀ a ∈ args, s.Holds a) (hopen : m.openMethod = some token)
    (h : m.close args s = .ok m' s') (hfree : ∀ a ∈ s'.ancestors t, ¬ s'.MentionsMethod a) :
    m'.SeenFrom s' access query t depth := by
  obtain ⟨hgrown, -, himage⟩ := imageOf_of_close hs hm hargs hopen h
  have hancestors := Store.ancestors_of_extends hs hgrown.toExtends ht
  refine hseen.of_imageOf himage ?_ hancestors
  refine himage.declaringType.eq_self hgrown.wellFormed.toFormed fun x p y hx hp hy => ?_
  have hmem : m.declaringType ∈ s'.ancestors t := by
    rw [hancestors]
    exact List.mem_of_getElem? hseen.declaredBy
  cases howner : p.owner with
  | method token' =>
    refine absurd ⟨x, token', p.position, hx, ?_⟩ (hfree _ hmem)
    rw [← howner]
    exact TypeInfo.form_of_parameter hp
  | type d =>
    rw [Substitution.Sends, Substitution.lookup_of_type howner] at hy
    exact hy

/-- **An answer shows a member that the mask lets be seen.** Whether or not the queried definition
was closed on the way, the member has the kind and the name that are looked for, the mask admits it,
and its declaring type stands among the ancestors of the type that the answer is about, at the
distance that the answer gives. A member of a base is not private, is static only if the mask asks
for the static members of bases, and is looked for only where the mask and its kind let it be
inherited. -/
theorem resolved_seenFrom {allowed : Store → Operation → Prop} {s s' : Store}
    (hreach : s.Reachable allowed) {resolver : Resolver} (hregistry : resolver.registry.HeldBy s)
    {t : TypeId} (ht : s.Holds t) {query : Query} (hquery : query.HeldBy s) {answer : Resolution}
    (h : resolver.tryResolve t query s = .ok (some answer) s')
    (hfree : ∀ a ∈ s'.ancestors answer.queriedType, ¬ s'.MentionsMethod a) :
    answer.member.SeenFrom s' (resolver.options.effectiveAccess query.access) query
      answer.queriedType answer.depth := by
  have hs := hreach.wellFormed
  obtain ⟨best, s₁, s₂, s₃, hbehind⟩ := Resolver.behind_of_tryResolve hs hregistry ht hquery h
  obtain ⟨arguments, hwins⟩ := hbehind.wins
  obtain ⟨found, hfound, hmem, -⟩ := Resolver.exists_of_choose hwins
  have hs₁ := hbehind.before.wellFormed
  have hregistry₁ := hregistry.of_extends hbehind.before.toExtends
  obtain ⟨hgrown, -, -⟩ := (builds_candidates hs₁ hregistry₁ hbehind.holds _ _).of_ok hfound
  have hseen := seenFrom_of_candidates hs₁ hregistry₁ hbehind.holds hfound hmem
  replace hseen : best.member.SeenFrom s₃ (resolver.options.effectiveAccess query.access) query
      answer.queriedType best.depth :=
    { hseen.of_extends hgrown.wellFormed hbehind.between.toExtends
        (hgrown.holds hbehind.holds) with }
  obtain ⟨-, hdepth, -, hmember⟩ := Resolver.finish_cases hbehind.finished
  rw [hdepth]
  rcases hmember with ⟨token, args, hopen, hvalues, hclose⟩ | ⟨-, hmember, rfl⟩
  · exact seenFrom_of_close hbehind.between.wellFormed hbehind.found.member
      (hbehind.between.holds (hgrown.holds hbehind.holds)) hseen
      (hbehind.found.holds_methodArguments hopen hvalues) hopen hclose hfree
  · rw [hmember]
    exact hseen

/-- What can be put into the base of what is derived. -/
def derivedResolver : Resolver :=
  { registry := { members := #[Member.method "Put" ⟨27⟩
      [{ position := 0, name := none, type := ⟨28⟩ }] Core.void] }
    depth := 40 }

/-- To put a text into what is derived infers its definition, and finds the method of the base. -/
theorem resolved_seenFrom_derived :
    ∃ (query : Query) (answer : Resolution) (s' : Store),
      derivedResolver.tryResolve ⟨29⟩ query (Store.initial.afterAll derivedRun) =
        .ok (some answer) s' ∧ answer.depth = 1 ∧
      s'.display answer.member.declaringType = "Base<String>" ∧
      answer.member.SeenFrom s' Access.usual query answer.queriedType 1 := by
  let s := Store.initial.afterAll derivedRun
  let query : Query :=
    { kind := .method, name := "Put", arguments := { positional := [.ofType Core.string] } }
  have hsize : s.size = 33 := by decide +kernel
  have hheld : ∀ {ts : List TypeId}, (∀ t ∈ ts, t.index < 33) → ∀ t ∈ ts, s.Holds t :=
    fun h t ht => by
      rw [Store.Holds, hsize]
      exact h t ht
  have hregistry : derivedResolver.registry.HeldBy s := fun m hm => by
    obtain rfl := List.mem_singleton.mp hm
    exact hheld (by decide)
  have ht : s.Holds ⟨29⟩ :=
    hheld (by decide : ∀ t ∈ [TypeId.mk 29], t.index < 33) _ List.mem_cons_self
  have hquery : query.HeldBy s := ⟨hheld (by decide), by rintro u ⟨⟩⟩
  have hrun : succeedsWith (derivedResolver.tryResolve ⟨29⟩ query) s (fun found s' =>
      found.any fun answer => answer.depth = 1 ∧
        s'.display answer.member.declaringType = "Base<String>" ∧
        ∀ a ∈ s'.ancestors answer.queriedType, a.index < s'.size ∧ s'.isOpen a = false) := by
    decide +kernel
  obtain ⟨found, s', hfound, htest⟩ := exists_of_succeedsWith hrun
  obtain ⟨answer, rfl, htest⟩ := (Option.any_eq_true _ _).mp htest
  obtain ⟨hdepth, hdeclaring, hclosed⟩ := of_decide_eq_true htest
  have hs' := ((settles_tryResolve derivedResolver reachable_derivedRun.wellFormed ht hquery
    hregistry).of_ok hfound).1.wellFormed
  have hfree : ∀ a ∈ s'.ancestors answer.queriedType, ¬ s'.MentionsMethod a := by
    rintro a ha ⟨q, _, _, hq, _⟩
    obtain ⟨hheld, hopen⟩ := hclosed a ha
    rw [(hs'.isOpen_iff hheld).mpr ⟨q, hq⟩] at hopen
    cases hopen
  have hseen := resolved_seenFrom reachable_derivedRun hregistry ht hquery hfound hfree
  rw [hdepth] at hseen
  exact ⟨query, answer, s', hfound, hdepth, hdeclaring, hseen⟩

end CallSite
