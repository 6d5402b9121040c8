import CallSite.Proofs.Resolve.Repeat

/-!
# What stands behind an answer

An answer comes from a winner among the candidates on some type: the queried type, the type that was
constructed from it with given arguments, or the one that was constructed with inferred arguments.
The winner was listed and accepted there, and all that is done to it is to give it its method
arguments.

* `Resolver.exists_of_choose` – the winner is a candidate that was accepted.
* `Resolver.exists_choose_of_tryResolve` – an answer is what was done to a winner, on whatever
  types.
* `Resolver.Behind`, `Resolver.behind_of_tryResolve` – an answer is a winner that was given its
  method arguments.
* `Resolver.exists_winner_of_tryResolve` – all of this may be done again at the end.
-/

namespace CallSite

/-- A computation on types succeeds while a member is resolved where it succeeds by itself. -/
theorem of_ofTypes_eq_ok {α : Type} {x : TypeM α} {s s' : Store} {a : α}
    (h : ofTypes x s = .ok a s') : x s = .ok a s' := by
  rw [ofTypes_apply] at h
  cases hx : x s with
  | ok b s₁ =>
    rw [hx] at h
    obtain ⟨rfl, rfl⟩ := EStateM.Result.ok.inj h
    rfl
  | error e s₁ =>
    rw [hx] at h
    cases h

namespace Resolver

variable {resolver : Resolver} {s s' : Store} {t : TypeId} {query : Query}

/-! ### The winner -/

/-- **What is accepted is a candidate** whose evaluation accepts the call. -/
theorem exists_of_accepted {found : List Accepted}
    (h : resolver.accepted t query s = .ok found s') :
    ∃ listed, candidates resolver.registry (resolver.options.effectiveAccess query.access) query t
        s = .ok listed s' ∧ ∀ a ∈ found, (a.member, a.depth) ∈ listed ∧
      evaluate s' resolver.depth (resolver.options.comparison query.arguments) query a.member
        (typeSlots s t) = some (a.fit, a.inferred) := by
  unfold Resolver.accepted at h
  rw [get_bind_apply] at h
  obtain ⟨listed, s₁, hlisted, h⟩ := exists_of_bind_eq_ok h
  rw [get_bind_apply] at h
  obtain ⟨rfl, rfl⟩ := of_pure_eq_ok h
  refine ⟨listed, of_ofTypes_eq_ok hlisted, fun a ha => ?_⟩
  obtain ⟨⟨m, depth⟩, hentry, hsome⟩ := List.mem_filterMap.mp ha
  obtain ⟨⟨fit, inferred⟩, heval, rfl⟩ := Option.map_eq_some_iff.mp hsome
  exact ⟨hentry, heval⟩

/-- **The winner is a candidate that was accepted.** -/
theorem exists_of_choose {best : Accepted} (h : resolver.choose t query s = .ok (some best) s') :
    ∃ found, candidates resolver.registry (resolver.options.effectiveAccess query.access) query t
        s = .ok found s' ∧ (best.member, best.depth) ∈ found ∧
      evaluate s' resolver.depth (resolver.options.comparison query.arguments) query best.member
        (typeSlots s t) = some (best.fit, best.inferred) := by
  obtain ⟨accepted, s₁, haccepted, h⟩ := exists_of_bind_eq_ok h
  obtain ⟨listed, hlisted, hall⟩ := exists_of_accepted haccepted
  cases hselect : select (resolver.options.effectiveAccess query.access) accepted with
  | nobody =>
    rw [hselect] at h
    cases (of_pure_eq_ok h).1
  | tie count =>
    rw [hselect] at h
    cases h
  | winner winner =>
    rw [hselect] at h
    obtain ⟨hbest, rfl⟩ := of_pure_eq_ok h
    obtain rfl := Option.some.inj hbest
    exact ⟨listed, hlisted, hall winner (mem_of_select hselect)⟩

/-! ### The answer -/

theorem exists_choose_of_resolveOn {answer : Resolution}
    (h : resolver.resolveOn t query s = .ok (some answer) s') :
    ∃ best s₁, resolver.choose t query s = .ok (some best) s₁ ∧
      finish t best s₁ = .ok answer s' := by
  obtain ⟨winner, s₁, hwinner, h⟩ := exists_of_bind_eq_ok h
  cases winner with
  | none => cases (of_pure_eq_ok h).1
  | some best =>
    obtain ⟨r, s₂, hfinish, h⟩ := exists_of_bind_eq_ok h
    obtain ⟨hr, rfl⟩ := of_pure_eq_ok h
    obtain rfl := Option.some.inj hr
    exact ⟨best, s₁, hwinner, hfinish⟩

theorem exists_choose_of_resolveOpen {answer : Resolution}
    (h : resolver.resolveOpen t query s = .ok (some answer) s') :
    ∃ u arguments best s₁ s₂ s₃, resolver.choose u { query with typeArguments := arguments } s₁ =
      .ok (some best) s₂ ∧ finish u best s₃ = .ok answer s' := by
  obtain ⟨winner, s₁, hwinner, h⟩ := exists_of_bind_eq_ok h
  cases winner with
  | none => cases (of_pure_eq_ok h).1
  | some best =>
    dsimp only at h
    cases hvalues : best.inferred.typeSlots.values with
    | none =>
      rw [hvalues] at h
      cases (of_pure_eq_ok h).1
    | some arguments =>
    rw [hvalues] at h
    obtain ⟨closed, s₂, -, h⟩ := exists_of_bind_eq_ok h
    rw [get_bind_apply] at h
    -- Where the definition is inferred to be itself its winner stays; else the call is resolved
    -- anew.
    split at h
    · obtain ⟨r, s₃, hfinish, h⟩ := exists_of_bind_eq_ok h
      obtain ⟨hr, rfl⟩ := of_pure_eq_ok h
      obtain rfl := Option.some.inj hr
      exact ⟨t, query.typeArguments, best, s, s₁, s₂, hwinner, hfinish⟩
    · obtain ⟨again, s₃, hchoose, hfinish⟩ := exists_choose_of_resolveOn h
      exact ⟨closed, [], again, s₂, s₃, s₃, hchoose, hfinish⟩

/-- **An answer is what was done to a winner**, on some type and under the same query but for the
arguments of a definition. -/
theorem exists_choose_of_tryResolve {answer : Resolution}
    (h : resolver.tryResolve t query s = .ok (some answer) s') :
    ∃ u arguments best s₁ s₂ s₃, resolver.choose u { query with typeArguments := arguments } s₁ =
      .ok (some best) s₂ ∧ finish u best s₃ = .ok answer s' := by
  unfold tryResolve at h
  split at h
  · cases h
  obtain ⟨queried, s₁, -, h⟩ := exists_of_bind_eq_ok h
  cases queried with
  | none => cases (of_pure_eq_ok h).1
  | some u =>
    dsimp only at h
    rw [get_bind_apply] at h
    split at h
    · exact exists_choose_of_resolveOpen h
    · obtain ⟨best, s₂, hchoose, hfinish⟩ := exists_choose_of_resolveOn h
      exact ⟨u, query.typeArguments, best, s₁, s₂, s₂, hchoose, hfinish⟩

/-- **What stands behind an answer**: a winner on the type that the answer is about, under the same
query but for the arguments of a definition. Between the choice and the end types may be added. -/
structure Behind (resolver : Resolver) (query : Query) (s : Store) (answer : Resolution)
    (s' : Store) (best : Accepted) (s₁ s₂ s₃ : Store) : Prop where
  /-- The choice is made after types may have been added. -/
  before : s.Appends s₁
  /-- The type is held by then. -/
  holds : s₁.Holds answer.queriedType
  /-- The winner. -/
  wins : ∃ arguments, resolver.choose answer.queriedType
    { query with typeArguments := arguments } s₁ = .ok (some best) s₂
  /-- Types may be added before the end. -/
  between : s₂.Appends s₃
  /-- What is known of the winner then. -/
  found : best.FoundOn answer.queriedType s₃
  /-- The winner is given its arguments. -/
  finished : finish answer.queriedType best s₃ = .ok answer s'

/-- **What is done to a winner**: an open method is given its arguments, and any other member
stays. -/
theorem finish_cases {best : Accepted} {answer : Resolution}
    (h : finish t best s = .ok answer s') : answer.queriedType = t ∧ answer.depth = best.depth ∧
      answer.fit = best.fit ∧
      ((∃ token arguments, best.member.openMethod = some token ∧
        best.inferred.methodSlots.values = some arguments ∧
        best.member.close arguments s = .ok answer.member s') ∨
      (best.member.openMethod = none ∨ best.inferred.methodSlots.values = none) ∧
        answer.member = best.member ∧ s = s') := by
  unfold finish at h
  cases hopen : best.member.openMethod with
  | none =>
    rw [hopen] at h
    obtain ⟨rfl, rfl⟩ := of_pure_eq_ok h
    exact ⟨rfl, rfl, rfl, .inr ⟨.inl rfl, rfl, rfl⟩⟩
  | some token =>
    cases hvalues : best.inferred.methodSlots.values with
    | none =>
      rw [hopen, hvalues] at h
      obtain ⟨rfl, rfl⟩ := of_pure_eq_ok h
      exact ⟨rfl, rfl, rfl, .inr ⟨.inr rfl, rfl, rfl⟩⟩
    | some arguments =>
      rw [hopen, hvalues] at h
      obtain ⟨member, s₁, hclose, h⟩ := exists_of_bind_eq_ok h
      obtain ⟨rfl, rfl⟩ := of_pure_eq_ok h
      exact ⟨rfl, rfl, rfl, .inl ⟨token, arguments, rfl, rfl, of_ofTypes_eq_ok hclose⟩⟩

section Behind

variable {answer : Resolution} (hregistry : resolver.registry.HeldBy s) (ht : s.Holds t)
  (hquery : ∀ u ∈ query.types, s.Holds u)

include hregistry ht hquery

/-- A query on a type that stays as it is. -/
theorem behind_of_resolveOn (hs : s.WellFormed)
    (h : resolver.resolveOn t query s = .ok (some answer) s') :
    ∃ best s₂, resolver.Behind query s answer s' best s s₂ s₂ := by
  obtain ⟨winner, s₂, hwinner, h⟩ := exists_of_bind_eq_ok h
  obtain ⟨h₂, hbest, -⟩ := (settles_choose resolver hs ht hregistry hquery).of_ok hwinner
  cases winner with
  | none => cases (of_pure_eq_ok h).1
  | some best =>
    obtain ⟨r, s₃, hfinish, h⟩ := exists_of_bind_eq_ok h
    obtain ⟨hr, rfl⟩ := of_pure_eq_ok h
    obtain rfl := Option.some.inj hr
    obtain rfl := (finish_cases hfinish).1
    exact ⟨best, s₂, .refl hs, ht, ⟨_, hwinner⟩, .refl h₂.wellFormed, hbest best rfl, hfinish⟩

/-- A query on an open definition. -/
theorem behind_of_resolveOpen (hs : s.WellFormed) (hdef : (s.info t).isDefinition)
    (h : resolver.resolveOpen t query s = .ok (some answer) s') :
    ∃ best s₁ s₂ s₃, resolver.Behind query s answer s' best s₁ s₂ s₃ := by
  obtain ⟨winner, s₁, hwinner, h⟩ := exists_of_bind_eq_ok h
  obtain ⟨h₁, hbest, -⟩ := (settles_choose resolver hs ht hregistry hquery).of_ok hwinner
  cases winner with
  | none => cases (of_pure_eq_ok h).1
  | some best =>
    dsimp only at h
    cases hvalues : best.inferred.typeSlots.values with
    | none =>
      rw [hvalues] at h
      cases (of_pure_eq_ok h).1
    | some args =>
      rw [hvalues] at h
      obtain ⟨closed, s₂, hclosed, h⟩ := exists_of_bind_eq_ok h
      have hargs : ∀ a ∈ args, s₁.Holds a := fun a ha => by
        refine (hbest best rfl).inferred.of_typeValues (d := t) ?_ hvalues ha
        rw [(hbest best rfl).typeSlots.owner_eq, Resolver.typeSlots, h₁.info_eq ht, if_pos hdef]
        rfl
      obtain ⟨h₂, hheld, -⟩ := (settles_construct h₁.wellFormed (h₁.holds ht) hargs).of_ok
        (of_ofTypes_eq_ok hclosed)
      have h₁₂ := h₁.trans h₂
      rw [get_bind_apply] at h
      -- Either the winner on the definition stays, or another one is chosen on the type that was
      -- constructed.
      split at h
      · obtain ⟨r, s₃, hfinish, h⟩ := exists_of_bind_eq_ok h
        obtain ⟨hr, rfl⟩ := of_pure_eq_ok h
        obtain rfl := Option.some.inj hr
        obtain rfl := (finish_cases hfinish).1
        exact ⟨best, s, s₁, s₂, .refl hs, ht, ⟨_, hwinner⟩, h₂,
          (hbest best rfl).of_extends h₂.toExtends (h₁.holds ht), hfinish⟩
      · obtain ⟨best', s₃, hbehind⟩ := behind_of_resolveOn (hregistry.of_extends h₁₂.toExtends)
          hheld (fun u hu => h₁₂.holds (hquery u hu)) h₁₂.wellFormed h
        exact ⟨best', s₂, s₃, s₃, { hbehind with before := h₁₂ }⟩

end Behind

/-- **An answer is a winner** that was given its method arguments. -/
theorem behind_of_tryResolve (hs : s.WellFormed) (hregistry : resolver.registry.HeldBy s)
    (ht : s.Holds t) (hquery : query.HeldBy s) {answer : Resolution}
    (h : resolver.tryResolve t query s = .ok (some answer) s') :
    ∃ best s₁ s₂ s₃, resolver.Behind query s answer s' best s₁ s₂ s₃ := by
  unfold Resolver.tryResolve at h
  split at h
  · cases h
  obtain ⟨queried, s₁, hqueried, h⟩ := exists_of_bind_eq_ok h
  obtain ⟨h₁, hheld, -⟩ := (settles_queriedType resolver hs ht hquery).of_ok hqueried
  cases queried with
  | none => cases (of_pure_eq_ok h).1
  | some u =>
    have hu := hheld u rfl
    have hregistry₁ := hregistry.of_extends h₁.toExtends
    have hquery₁ : ∀ v ∈ query.types, s₁.Holds v := fun v hv => h₁.holds (hquery.1 v hv)
    dsimp only at h
    rw [get_bind_apply] at h
    split at h
    case isTrue hdef =>
      obtain ⟨best, s₂, s₃, s₄, hbehind⟩ :=
        behind_of_resolveOpen hregistry₁ hu hquery₁ h₁.wellFormed hdef h
      exact ⟨best, s₂, s₃, s₄, { hbehind with before := h₁.trans hbehind.before }⟩
    case isFalse =>
      obtain ⟨best, s₂, hbehind⟩ := behind_of_resolveOn hregistry₁ hu hquery₁ h₁.wellFormed h
      exact ⟨best, s₁, s₂, s₂, { hbehind with before := h₁ }⟩

/-- **An answer, seen from the end**: among the types that are there by then the winner is chosen
again, and to give it its arguments adds nothing. -/
theorem exists_winner_of_tryResolve (hs : s.WellFormed) (hregistry : resolver.registry.HeldBy s)
    (ht : s.Holds t) (hquery : query.HeldBy s) {answer : Resolution}
    (h : resolver.tryResolve t query s = .ok (some answer) s') :
    ∃ best arguments, s.Appends s' ∧ s'.Holds answer.queriedType ∧
      best.FoundOn answer.queriedType s' ∧ resolver.choose answer.queriedType
        { query with typeArguments := arguments } s' = .ok (some best) s' ∧
      finish answer.queriedType best s' = .ok answer s' := by
  obtain ⟨best, s₁, s₂, s₃, hbehind⟩ := behind_of_tryResolve hs hregistry ht hquery h
  obtain ⟨arguments, hwins⟩ := hbehind.wins
  have h₁ := hbehind.before
  have hsettles : Settles ResolveError.IsEndless
      (resolver.choose answer.queriedType { query with typeArguments := arguments }) _ _ :=
    settles_choose resolver h₁.wellFormed hbehind.holds (hregistry.of_extends h₁.toExtends)
      fun u hu => h₁.holds (hquery.1 u hu)
  -- A choice that was made is made again wherever types were only added.
  obtain ⟨h₂, -, hchoose⟩ := hsettles.of_ok hwins
  obtain ⟨h₃, -, hfinish⟩ :=
    (settles_finish hbehind.between.wellFormed hbehind.found).of_ok hbehind.finished
  have hrest := hbehind.between.trans h₃
  have hholds := (h₂.trans hbehind.between).holds hbehind.holds
  exact ⟨best, arguments, h₁.trans (h₂.trans hrest), h₃.holds hholds,
    hbehind.found.of_extends h₃.toExtends hholds, hchoose _ hrest, hfinish _ (.refl h₃.wellFormed)⟩

end Resolver

end CallSite
