import CallSite.Proofs.Resolve.Constraint
import CallSite.Proofs.Resolve.Stable
import CallSite.Proofs.Type.Check

/-!
# Resolving a member, again

To resolve a member makes types and method parameters, and every one of them is made once: a query
that is repeated finds them all. So the answer to a query is the same whenever it is asked, after
whatever other queries, and from the second time on nothing is added to the store
(`CallSite.resolution_repeats`).

The proof follows the resolver. Each of its steps settles (`CallSite.Settles`): what it reads of the
store is about held types and does not change, and what it makes is found again.
-/

namespace CallSite

/-! ### Candidates -/

section Candidates

variable {s : Store} (hs : s.WellFormed) {registry : Registry} (hregistry : registry.HeldBy s)
  {t : TypeId} (ht : s.Holds t)

include hs hregistry ht

theorem settles_declaredMembers (kind : MemberKind) :
    Settles TypeError.IsEndless (declaredMembers registry t kind) s fun ms s' =>
      ∀ m ∈ ms, m.HeldBy s' := by
  refine .read ?_ fun s' happends => by rw [happends.info_eq ht]
  dsimp only
  split
  · exact .pure hs fun m hm => hregistry.declared hm
  case h_2 d _ =>
    have hargs : ∀ a ∈ (s.info t).arguments, s.Holds a := fun a ha =>
      hs.holds_part (hs.mem_parts_of_mem_arguments ha)
    refine .mapM hs (fun _ _ _ happends hm => hm.of_extends happends.toExtends) _
      fun m hm s' happends => ?_
    exact settles_memberSubstitute happends.wellFormed
      ((Substitution.HeldBy.forType hargs).of_extends happends.toExtends)
      ((hregistry.declared hm).of_extends happends.toExtends)

omit hregistry in
theorem holds_searchedTypes {access : Access} {kind : MemberKind} {a : TypeId}
    (ha : a ∈ searchedTypes s access kind t) : s.Holds a := by
  unfold searchedTypes at ha
  split at ha
  · rw [List.mem_singleton.mp ha]
    exact ht
  · exact (Store.upward_of_mem_ancestors ha).holds hs ht

theorem settles_candidates (access : Access) (query : Query) :
    Settles TypeError.IsEndless (candidates registry access query t) s fun found s' =>
      ∀ entry ∈ found, entry.1.HeldBy s' := by
  refine .read ?_ fun s' happends => by
    rw [searchedTypes, searchedTypes, Store.ancestors_of_extends hs happends.toExtends ht]
  refine (Settles.mapM (P := fun (entries : List (Member × Nat)) s' =>
      ∀ entry ∈ entries, entry.1.HeldBy s') hs
    (fun _ _ _ happends h entry hentry => (h entry hentry).of_extends happends.toExtends) _
    fun entry hentry s' happends => ?_).bind fun found s' happends hfound => ?_
  · have hdeclaring := holds_searchedTypes hs ht (List.fst_mem_of_mem_zipIdx hentry)
    refine (settles_declaredMembers happends.wellFormed (hregistry.of_extends happends.toExtends)
      (happends.holds hdeclaring) query.kind).bind fun ms s'' happends' hms =>
        .pure happends'.wellFormed fun entry' hentry' => ?_
    obtain ⟨m, hm, rfl⟩ := List.mem_map.mp hentry'
    exact hms m (List.mem_filter.mp hm).1
  · refine .pure happends.wellFormed fun entry hentry => ?_
    obtain ⟨entries, hentries, hentry⟩ := List.mem_flatten.mp hentry
    exact hfound entries hentries entry hentry

end Candidates

/-! ### The winner -/

/-- **An accepted candidate whose types are held**, with the slots of its evaluation on some
type. -/
structure Accepted.FoundOn (a : Accepted) (t : TypeId) (s : Store) : Prop where
  /-- The types of the member are held. -/
  member : a.member.HeldBy s
  /-- What was inferred is held. -/
  inferred : a.inferred.HeldBy s
  /-- The slots are those for the parameters of the queried definition. -/
  typeSlots : (Resolver.typeSlots s t).Extends a.inferred.typeSlots
  /-- The slots are those for the parameters of the method. -/
  methodSlots : (methodSlots a.member).Extends a.inferred.methodSlots

/-- Who wins was accepted. -/
theorem mem_of_select {access : Access} {accepted : List Accepted} {best : Accepted}
    (h : select access accepted = .winner best) : best ∈ accepted := by
  have hmem : best ∈ Accepted.rank accepted := by
    unfold select at h
    generalize Accepted.rank accepted = ranked at h
    unfold selectRanked at h
    split at h
    · cases h
    · cases h
      exact List.mem_singleton_self _
    · split at h
      · cases h
        exact List.mem_cons_self
      · split at h
        · cases h
          exact List.mem_cons_self
        · cases h
  exact (List.mergeSort_perm _ _).mem_iff.mp hmem

section Resolver

variable (resolver : Resolver) {s : Store} (hs : s.WellFormed)

section Answer

variable {t : TypeId} (ht : s.Holds t) {query : Query}

theorem typeSlots_of_extends {s' : Store} (hext : s.Extends s') (ht : s.Holds t) :
    Resolver.typeSlots s' t = Resolver.typeSlots s t := by
  rw [Resolver.typeSlots, Resolver.typeSlots, hext.info_eq ht,
    Store.genericParameters_of_extends hext ht]

/-- What was found stays found while the store grows. -/
theorem Accepted.FoundOn.of_extends {s' : Store} {best : Accepted} (h : best.FoundOn t s)
    (hext : s.Extends s') (ht : s.Holds t) : best.FoundOn t s' :=
  ⟨h.member.of_extends hext, h.inferred.imp fun _ hb => hext.holds hb, by
    rw [typeSlots_of_extends hext ht]
    exact h.typeSlots, h.methodSlots⟩

/-- The method arguments that were inferred are held. -/
theorem Accepted.FoundOn.holds_methodArguments {best : Accepted} (h : best.FoundOn t s)
    {token : MethodToken} (hopen : best.member.openMethod = some token) {args : List TypeId}
    (hvalues : best.inferred.methodSlots.values = some args) : ∀ a ∈ args, s.Holds a := by
  intro a ha
  refine h.inferred.of_methodValues (m := token) ?_ hvalues ha
  rw [h.methodSlots.owner_eq, CallSite.methodSlots, Member.methodOwner, hopen]
  rfl

/-- What an evaluation begins with has nothing bound. -/
theorem heldBy_start (s' : Store) (m : Member) :
    Inferred.HeldBy { typeSlots := Resolver.typeSlots s t, methodSlots := methodSlots m } s' :=
  .of_unbound get?_typeSlots get?_methodSlots

include hs

/-- **To give a winner its method arguments settles.** -/
theorem settles_finish {best : Accepted} (hbest : best.FoundOn t s) :
    Settles ResolveError.IsEndless (Resolver.finish t best) s fun _ _ => True := by
  unfold Resolver.finish
  dsimp only
  split
  case h_1 token args hopen hvalues =>
    exact (settles_memberClose hs hbest.member
      (hbest.holds_methodArguments hopen hvalues)).ofTypes.bind
        fun _ _ happends _ => .pure happends.wellFormed trivial
  case h_2 =>
    exact (Settles.pure (Q := fun _ _ => True) hs trivial).bind fun _ _ happends _ =>
      .pure happends.wellFormed trivial

variable (hregistry : resolver.registry.HeldBy s) (hquery : ∀ u ∈ query.types, s.Holds u)

include hregistry hquery ht

theorem settles_accepted :
    Settles ResolveError.IsEndless (resolver.accepted t query) s fun found s' =>
      ∀ best ∈ found, best.FoundOn t s' := by
  unfold Resolver.accepted
  refine .read ?_ fun s' happends => by rw [typeSlots_of_extends happends.toExtends ht]
  refine (settles_candidates hs hregistry ht _ query).ofTypes.bind fun found s₁ h₁ hfound => ?_
  have hquery₁ : ∀ u ∈ query.types, s₁.Holds u := fun u hu => h₁.holds (hquery u hu)
  refine .read (.pure h₁.wellFormed fun best hbest => ?_) fun s₂ h₂ => ?_
  · obtain ⟨⟨m, depth⟩, hentry, hsome⟩ := List.mem_filterMap.mp hbest
    obtain ⟨⟨fit, inferred⟩, heval, rfl⟩ := Option.map_eq_some_iff.mp hsome
    obtain ⟨htype, hmethod⟩ := extends_of_evaluate heval
    refine ⟨hfound _ hentry, holds_of_evaluate h₁.wellFormed hquery₁ heval (heldBy_start s₁ m), ?_,
      hmethod⟩
    rw [typeSlots_of_extends h₁.toExtends ht]
    exact htype
  · refine congrArg (Pure.pure : List Accepted → ResolveM _) ?_
    refine List.filterMap_congr fun entry hentry => ?_
    dsimp only
    rw [evaluate_of_extends h₁.wellFormed h₂.toGrown (hfound entry hentry) hquery₁
      (heldBy_start s₁ entry.1)]

/-- **To choose a winner settles.** -/
theorem settles_choose :
    Settles ResolveError.IsEndless (resolver.choose t query) s fun found s' =>
      ∀ best, found = some best → best.FoundOn t s' := by
  unfold Resolver.choose
  refine (settles_accepted resolver hs ht hregistry hquery).bind fun found s₁ h₁ hfound => ?_
  split
  · exact .pure h₁.wellFormed (by rintro best ⟨⟩)
  case h_2 best hbest =>
    refine .pure h₁.wellFormed ?_
    rintro _ ⟨⟩
    exact hfound best (mem_of_select hbest)
  · refine .read (.throw h₁.wellFormed _) fun s₂ h₂ => ?_
    rw [Store.display_of_extends h₁.wellFormed.toFormed h₂.toExtends (h₁.holds ht)]

theorem settles_resolveOn :
    Settles ResolveError.IsEndless (resolver.resolveOn t query) s fun _ _ => True := by
  unfold Resolver.resolveOn
  refine (settles_choose resolver hs ht hregistry hquery).bind fun found s₁ h₁ hfound => ?_
  split
  · exact .pure h₁.wellFormed trivial
  case h_2 best =>
    exact (settles_finish h₁.wellFormed (hfound best rfl)).bind fun _ _ h₂ _ =>
      .pure h₂.wellFormed trivial

/-- **To resolve on an open definition settles**, with the type that is constructed for it. -/
theorem settles_resolveOpen (hdef : (s.info t).isDefinition) :
    Settles ResolveError.IsEndless (resolver.resolveOpen t query) s fun _ _ => True := by
  unfold Resolver.resolveOpen
  refine (settles_choose resolver hs ht hregistry hquery).bind fun found s₁ h₁ hfound => ?_
  split
  · exact .pure h₁.wellFormed trivial
  case h_2 best =>
    have hbest := hfound best rfl
    split
    · exact .pure h₁.wellFormed trivial
    case h_2 args hvalues =>
      have hargs : ∀ a ∈ args, s₁.Holds a := fun a ha => by
        refine hbest.inferred.of_typeValues (d := t) ?_ hvalues ha
        rw [hbest.typeSlots.owner_eq, Resolver.typeSlots, h₁.info_eq ht, if_pos hdef]
        rfl
      refine (settles_construct h₁.wellFormed (h₁.holds ht) hargs).ofTypes.bind
        fun closed s₂ h₂ hclosed => ?_
      refine .read ?_ fun s₃ h₃ => by rw [h₃.info_eq hclosed]
      split
      · exact (settles_finish h₂.wellFormed (hbest.of_extends h₂.toExtends (h₁.holds ht))).bind
          fun _ _ h₃ _ => .pure h₃.wellFormed trivial
      · have h₁₂ := h₁.trans h₂
        exact settles_resolveOn resolver h₂.wellFormed hclosed (hregistry.of_extends h₁₂.toExtends)
          fun u hu => h₁₂.holds (hquery u hu)

end Answer

/-! ### The whole query -/

/-- The types that a query names: those that it matches, and the arguments for the queried
definition. -/
def Query.HeldBy (query : Query) (s : Store) : Prop :=
  (∀ u ∈ query.types, s.Holds u) ∧ ∀ u ∈ query.typeArguments, s.Holds u

variable {t : TypeId} (ht : s.Holds t)

include hs ht

/-- **To close a definition settles.** -/
theorem settles_close {args : List TypeId} (hargs : ∀ a ∈ args, s.Holds a) :
    Settles ResolveError.IsEndless (resolver.close t args) s fun closed s' =>
      ∀ u, closed = some u → s'.Holds u := by
  unfold Resolver.close
  let start : Inference :=
    { typeSlots := Slots.ofArity (.type t) (s.genericParameters t).length }
  have hstart : start.All s.Holds := .of_unbound (Slots.get?_ofArity _ _) Slots.get?_empty
  have hpairs : ∀ pair ∈ args.zip (s.genericParameters t), s.Holds pair.1 ∧ s.Holds pair.2 := by
    intro pair hpair
    obtain ⟨harg, hparameter⟩ := List.of_mem_zip hpair
    refine ⟨hargs _ harg, ?_⟩
    unfold Store.genericParameters at hparameter
    dsimp only at hparameter
    split at hparameter
    · exact hs.holds_part (hs.mem_parts_of_mem_arguments hparameter)
    · cases hparameter
  refine .read ?_ fun s' happends => by
    have hmatch : matchAll s' resolver.depth _ start = matchAll s resolver.depth _ start :=
      matchAll_of_extends hs happends.toGrown hpairs hstart
    rw [happends.info_eq ht, Store.display_of_extends hs.toFormed happends.toExtends ht,
      Store.genericParameters_of_extends happends.toExtends ht]
    dsimp only
    rw [hmatch]
  dsimp only
  split
  · exact .throw_bind hs _
  split
  · exact .throw_bind hs _
  split
  · exact .pure hs (by rintro u ⟨⟩)
  · refine (settles_construct hs ht hargs).ofTypes.bind fun u s₁ h₁ hu => .pure h₁.wellFormed ?_
    rintro _ ⟨⟩
    exact hu

variable {query : Query} (hquery : query.HeldBy s)

include hquery

theorem settles_queriedType :
    Settles ResolveError.IsEndless (resolver.queriedType t query) s fun queried s' =>
      ∀ u, queried = some u → s'.Holds u := by
  unfold Resolver.queriedType
  split
  · refine .pure hs ?_
    rintro _ ⟨⟩
    exact ht
  · exact settles_close resolver hs ht hquery.2

variable (hregistry : resolver.registry.HeldBy s)

include hregistry

/-- **To answer a query settles.** -/
theorem settles_tryResolve :
    Settles ResolveError.IsEndless (resolver.tryResolve t query) s fun _ _ => True := by
  unfold Resolver.tryResolve
  split
  · exact .throw_bind hs _
  refine (settles_queriedType resolver hs ht hquery).bind fun queried s₁ h₁ hqueried => ?_
  split
  · exact .pure h₁.wellFormed trivial
  case h_2 u =>
    have hu := hqueried u rfl
    have hregistry₁ := hregistry.of_extends h₁.toExtends
    have hquery₁ : ∀ u ∈ query.types, s₁.Holds u := fun u hu => h₁.holds (hquery.1 u hu)
    refine .read ?_ fun s₂ h₂ => by rw [h₂.info_eq hu]
    split
    case isTrue hdef => exact settles_resolveOpen resolver h₁.wellFormed hu hregistry₁ hquery₁ hdef
    case isFalse => exact settles_resolveOn resolver h₁.wellFormed hu hregistry₁ hquery₁

theorem settles_resolve :
    Settles ResolveError.IsEndless (resolver.resolve t query) s fun _ _ => True := by
  unfold Resolver.resolve
  refine (settles_tryResolve resolver hs ht hquery hregistry).bind fun found s₁ h₁ _ => ?_
  split
  · exact .pure h₁.wellFormed trivial
  · refine .read (.throw h₁.wellFormed _) fun s₂ h₂ => ?_
    rw [Store.display_of_extends h₁.wellFormed.toFormed h₂.toExtends (h₁.holds ht)]

end Resolver

/-! ### Queries one after another -/

/-- **A store after other queries**: any number of them, each to some resolver, answered or not. -/
inductive Store.AfterQueries (s : Store) : Store → Prop
  /-- No query. -/
  | none : AfterQueries s s
  /-- One more query, which may find nothing. -/
  | tryResolve {s₁ : Store} (resolver : Resolver) {t : TypeId} {query : Query} :
      AfterQueries s s₁ → resolver.registry.HeldBy s₁ → s₁.Holds t → query.HeldBy s₁ →
      AfterQueries s (storeAfter (resolver.tryResolve t query) s₁)
  /-- One more query, which fails where it finds nothing. -/
  | resolve {s₁ : Store} (resolver : Resolver) {t : TypeId} {query : Query} :
      AfterQueries s s₁ → resolver.registry.HeldBy s₁ → s₁.Holds t → query.HeldBy s₁ →
      AfterQueries s (storeAfter (resolver.resolve t query) s₁)

theorem Store.AfterQueries.appends {s s' : Store} (h : s.AfterQueries s') (hs : s.WellFormed) :
    s.Appends s' := by
  induction h with
  | none => exact .refl hs
  | tryResolve resolver _ hregistry ht hquery ih =>
    exact ih.trans (settles_tryResolve resolver ih.wellFormed ht hquery hregistry).appends
  | resolve resolver _ hregistry ht hquery ih =>
    exact ih.trans (settles_resolve resolver ih.wellFormed ht hquery hregistry).appends

/-- **A call only appends, and repeats**: no row that was there changes and the tables are kept; and
the same call after other queries has the same outcome and leaves the store as it is. What is not
repeated is a hierarchy that expands without end. -/
structure Repeats {α : Type} (call : ResolveM α) (s : Store) : Prop where
  /-- Rows are only appended. -/
  extends_after : s.Extends (storeAfter call s)
  /-- Names stay, and method parameters are only added. -/
  keepsTables : s.KeepsTables (storeAfter call s)
  /-- What was found is found again. -/
  ok_again : ∀ {found s₁ s₂}, call s = .ok found s₁ → s₁.AfterQueries s₂ →
    call s₂ = .ok found s₂
  /-- What failed fails again. -/
  error_again : ∀ {e s₁ s₂}, call s = .error e s₁ → ¬ e.IsEndless → s₁.AfterQueries s₂ →
    call s₂ = .error e s₂

theorem Settles.repeats {α : Type} {call : ResolveM α} {s : Store} {Q : α → Store → Prop}
    (h : Settles ResolveError.IsEndless call s Q) : Repeats call s where
  extends_after := h.appends.toExtends
  keepsTables := h.appends.toKeepsTables
  ok_again hrun hafter := by
    obtain ⟨happends, -, hrepeat⟩ := h.of_ok hrun
    exact hrepeat _ (hafter.appends happends.wellFormed)
  error_again hrun hfinite hafter := by
    obtain ⟨happends, hrepeat⟩ := h.of_error hrun
    exact hrepeat.resolve_left hfinite _ (hafter.appends happends.wellFormed)

/-- A query that fails where it finds nothing adds what the same query adds that may find
nothing. -/
theorem storeAfter_resolve (resolver : Resolver) (t : TypeId) (query : Query) (s : Store) :
    storeAfter (resolver.resolve t query) s = storeAfter (resolver.tryResolve t query) s := by
  unfold Resolver.resolve
  cases hrun : resolver.tryResolve t query s with
  | error e s₁ => rw [storeAfter_of_error hrun, storeAfter_of_error (bind_apply_of_error hrun _)]
  | ok found s₁ =>
    rw [storeAfter_of_ok hrun, storeAfter, bind_apply_of_ok hrun]
    cases found <;> rfl

/-- **Resolution is repeatable and only appends.** On every reachable store a query leaves the types
and names that were there as they are; and when the same query is asked again, after any other
queries, the answer is the same and nothing is added. -/
theorem resolution_repeats {allowed : Store → Operation → Prop} {s : Store}
    (hreach : s.Reachable allowed) {resolver : Resolver} (hregistry : resolver.registry.HeldBy s)
    {t : TypeId} (ht : s.Holds t) {query : Query} (hquery : query.HeldBy s) :
    Repeats (resolver.tryResolve t query) s ∧ Repeats (resolver.resolve t query) s ∧
      storeAfter (resolver.resolve t query) s = storeAfter (resolver.tryResolve t query) s :=
  ⟨(settles_tryResolve resolver hreach.wellFormed ht hquery hregistry).repeats,
    (settles_resolve resolver hreach.wellFormed ht hquery hregistry).repeats,
    storeAfter_resolve resolver t query s⟩

/-- A store with boxes of anything and a method on them whose parameter is constrained by what the
box holds. -/
def boundedStore : Store :=
  (Operation.constrain ⟨29⟩ Flags.none [⟨28⟩]).after
    ((Operation.methodParameters ⟨0⟩ ["U"]).after
      ((Operation.define "Box" .classKind ["T"]).after (Operation.newMethod.after Store.initial)))

theorem reachable_boundedStore : boundedStore.Reachable fun _ _ => True := by
  let s₁ := Operation.newMethod.after Store.initial
  let s₂ := (Operation.define "Box" .classKind ["T"]).after s₁
  let s₃ := (Operation.methodParameters ⟨0⟩ ["U"]).after s₂
  have hmethod : 0 < s₂.nextMethod := by decide +kernel
  have hsize : 29 < s₃.size := by decide +kernel
  refine .step (.step (.step (.step .initial trivial trivial) trivial trivial) hmethod trivial)
    ⟨hsize, fun c hc => ?_⟩ trivial
  obtain rfl := List.mem_singleton.mp hc
  exact Nat.lt_trans (by decide) hsize

/-- The method puts something into a box that the box may hold. -/
def boundedResolver : Resolver :=
  { registry := { members := #[(Member.method "Put" ⟨27⟩
      [{ position := 0, name := none, type := ⟨28⟩ }, { position := 1, name := none, type := ⟨29⟩ }]
      Core.void).withGenericMethod ⟨0⟩ [⟨29⟩]] }
    depth := 30 }

/-- To put texts into a box makes boxes of texts and the method on these, and does so once. -/
theorem resolution_repeats_box :
    ∃ (query : Query) (found : Option Resolution) (s₁ : Store), found.isSome ∧
      boundedResolver.tryResolve ⟨27⟩ query boundedStore = .ok found s₁ ∧
      boundedStore.size < s₁.size ∧ boundedStore.nextMethod < s₁.nextMethod ∧
      ∀ s₂, s₁.AfterQueries s₂ → boundedResolver.tryResolve ⟨27⟩ query s₂ = .ok found s₂ := by
  let query : Query :=
    { kind := .method, name := "Put"
      arguments := { positional := [.ofType Core.string, .ofType Core.string] } }
  have hsize : boundedStore.size = 30 := by decide +kernel
  have hheld : ∀ {ts : List TypeId}, (∀ t ∈ ts, t.index < 30) → ∀ t ∈ ts, boundedStore.Holds t :=
    fun h t ht => by
      rw [Store.Holds, hsize]
      exact h t ht
  have hregistry : boundedResolver.registry.HeldBy boundedStore := fun m hm => by
    obtain rfl := List.mem_singleton.mp hm
    exact hheld (by decide)
  have hboxed : boundedStore.Holds ⟨27⟩ := by
    rw [Store.Holds, hsize]
    decide
  have hquery : query.HeldBy boundedStore := ⟨hheld (by decide), by rintro u ⟨⟩⟩
  obtain ⟨htry, -, -⟩ := resolution_repeats reachable_boundedStore hregistry hboxed hquery
  have hrun : succeedsWith (boundedResolver.tryResolve ⟨27⟩ query) boundedStore (fun found s₁ =>
      found.isSome ∧ boundedStore.size < s₁.size ∧ boundedStore.nextMethod < s₁.nextMethod) := by
    decide +kernel
  obtain ⟨found, s₁, hfound, htest⟩ := exists_of_succeedsWith hrun
  obtain ⟨hsome, htypes, hmethods⟩ := of_decide_eq_true htest
  exact ⟨query, found, s₁, hsome, hfound, htypes, hmethods, fun _ hafter =>
    htry.ok_again hfound hafter⟩

end CallSite
