import CallSite.Proofs.Match.Reopen
import CallSite.Proofs.Match.Stable
import CallSite.Proofs.Resolve.Constraint
import CallSite.Proofs.Resolve.Stable
import CallSite.Proofs.Type.Check

/-!
# Arguments that are given

Generic arguments that a query gives are fed to the slots one by one, and each of them is checked
when it is bound. A constraint is checked with the types that are bound so far, and where it
mentions a parameter that has no type yet the check binds one, which may be another than the one
that is given for it later (`CallSite.given_arguments_refused`). So the order of the parameters
matters. Where every constraint looks back, to its own parameter and to those before it, arguments
that satisfy the constraints are accepted (`CallSite.given_arguments_accepted`).

* `Store.Admits` – an argument has all that its parameter asks for, once all arguments are in place.
* `Store.LooksBack` – constraints mention no parameter that comes later.
-/

namespace CallSite

/-- **An argument satisfies its parameter**: it has what the special constraints ask for, and each
of the constraints with all parameters replaced. -/
structure Store.Admits (s : Store) (σ : Substitution) (a t : TypeId) : Prop where
  /-- It has what the special constraints ask for. -/
  flags : ∀ p, (s.info t).shape = .parameter p → satisfiesFlags s a p.flags
  /-- It has the constraints, some of which may have to be made first. -/
  constraints : ∀ c ∈ (s.info t).constraints,
    ∃ c' s', substitute σ c s = .ok c' s' ∧ s'.Meets a c c'

/-- **Constraints look back**: of the parameters with slots they mention their own and those
before. -/
def Store.LooksBack (s : Store) (owns : GenericParameter → Bool) (parameters : List TypeId) :
    Prop :=
  ∀ (k : Nat) t, parameters[k]? = some t → ∀ c ∈ (s.info t).constraints, ∀ q p, s.Mentions c q →
    (s.info q).shape = .parameter p → owns p → ∃ j ≤ k, parameters[j]? = some q

/-- The slots for the arguments of a definition. -/
def definitionStart (s : Store) (definition : TypeId) : Inference :=
  { typeSlots := Slots.ofArity (.type definition) (s.genericParameters definition).length }

/-! ### One argument -/

section One

variable {s : Store} {σ : Substitution} {i : Inference} {a t : TypeId}

variable (hs : s.WellFormed) (hsc : s.Scoped) (hσ : σ.HeldBy s) (hi : i.All (s.IsClean i.owns))
  (ha : s.IsClean i.owns a)

include hs hsc hσ hi ha

/-- A constraint that an argument has with all arguments in place is found to hold, if what it
mentions is bound. -/
theorem eventually_matchConstraint_of_substitute {c c' : TypeId} {s' : Store} (hc : s.Holds c)
    (hsends : ∀ x p y, s.Mentions c x → (s.info x).shape = .parameter p → σ.Sends x p y →
      i.Sends x p y)
    (hsub : substitute σ c s = .ok c' s') (hmeets : s'.Meets a c c') :
    ∀ᶠ depth in Filter.atTop, ∀ cost,
      (matchConstraint s (matchWithin s depth) a c { i with cost := cost }).Stays i := by
  obtain ⟨hgrown, -, himage⟩ := (ensures_substitute hs hc hσ).of_ok hsub
  have hext := hgrown.toExtends
  have himage' : Image s' i.Sends c c' := himage.mono fun x p y hx hp hy => by
    have hx := (hext.mentions_iff hs.toFormed hc).mp hx
    rw [hext.info_eq hx.holds] at hp
    exact hsends x p y hx hp hy
  have hfound := eventually_matchConstraint hgrown.wellFormed (hgrown.keeps_scoped hsc)
    (hi.imp fun _ hb => (hb.of_extends hs.toFormed hext).avoids) himage'
    (ha.of_extends hs.toFormed hext) hmeets
  -- The types that were made for the constraint do not matter to the match.
  filter_upwards [hfound] with depth hdepth cost
  have hheld : Inference.All { i with cost := cost } s.Holds :=
    (hi.imp fun _ hb => hb.holds).of_slots_eq rfl rfl
  have hsame :=
    (matchConstraint_same hs hext (matchWithin_sameOn hs hext depth) ha.holds hheld hc).1
  rw [← hsame]
  exact hdepth cost

/-- **An argument that satisfies its parameter is bound to it**, if its constraints mention nothing
that is left to be bound. -/
theorem eventually_binds {p : GenericParameter} (ht : (s.info t).shape = .parameter p)
    (ho : i.owns p) (hnone : i.bound? p = none) (hfits : s.Admits σ a t)
    (hsends : ∀ c ∈ p.constraints, ∀ x q y, s.Mentions c x → (s.info x).shape = .parameter q →
      σ.Sends x q y → (i.put p a).Sends x q y) :
    ∀ᶠ depth in Filter.atTop, ∀ cost,
      (matchWithin s depth a .invariant t { i with cost := cost }).Stays (i.put p a) := by
  have hput := Inference.Extends.put a hnone
  have howns : (i.put p a).owns = i.owns := funext hput.owns_eq
  have hcs : (s.info t).constraints = p.constraints := TypeInfo.constraints_of_parameter ht
  have hcheck : ∀ᶠ depth in Filter.atTop, ∀ c ∈ p.constraints, ∀ cost,
      (matchConstraint s (matchWithin s depth) a c { i.put p a with cost := cost }).Stays
        (i.put p a) := by
    refine Store.eventually_forall_mem fun c hc => ?_
    obtain ⟨c', s', hsub, hmeets⟩ := hfits.constraints c (hcs ▸ hc)
    refine eventually_matchConstraint_of_substitute hs hsc hσ ?_ (howns ▸ ha)
      (hs.holds_constraint (t := t) (hcs ▸ hc)) (hsends c hc) hsub hmeets
    rw [howns]
    exact hi.put ha ho
  refine eventually_succ hcheck fun depth hdepth _ cost => ?_
  -- What is bound does not depend on the cost so far.
  have ho' : Inference.owns { i with cost := cost } p := ho
  have hnone' : Inference.bound? { i with cost := cost } p = none := hnone
  have hput' : Inference.put { i with cost := cost } p a = { i.put p a with cost := cost } := by
    unfold Inference.put
    cases p.owner <;> rfl
  rw [matchWithin, matchStep, ht]
  dsimp only
  rw [matchParameter, if_pos ho', hnone']
  dsimp only
  rw [if_pos (hfits.flags p ht), hput', matchConstraints]
  obtain ⟨cost', hall⟩ := Attempt.Stays.all hdepth cost
  rw [hall]
  exact .accepted _ _

end One

/-! ### One argument after another -/

/-- **The first arguments are bound**, and no slot besides theirs. -/
structure Inference.Fed (i : Inference) (owner : Owner) (arguments : List TypeId) (k : Nat) :
    Prop where
  /-- Each argument has a slot. -/
  owns : ∀ {p : GenericParameter}, p.owner = owner → p.position < arguments.length → i.owns p
  /-- The slots hold the first arguments. -/
  bound?_eq : ∀ {p : GenericParameter}, i.owns p → p.owner = owner →
    i.bound? p = if p.position < k then arguments[p.position]? else none
  /-- Other slots hold nothing. -/
  bound?_of_ne : ∀ {p : GenericParameter}, i.owns p → p.owner ≠ owner → i.bound? p = none

section All

variable {s : Store} {σ : Substitution} {i : Inference} {owner : Owner} {arguments : List TypeId}
  {k : Nat}

theorem Inference.bound?_put_of_ne {p q : GenericParameter} (t : TypeId) (hp : i.owns p)
    (hq : i.owns q) (hnone : i.bound? p = none)
    (hne : ¬ (q.owner = p.owner ∧ q.position = p.position)) : (i.put p t).bound? q = i.bound? q :=
  Option.ext fun _ => ⟨fun h => (bound?_of_put hp hq h).resolve_right fun h => hne h.2,
    bound?_put_of_some t hnone⟩

/-- **The next argument is bound.** -/
theorem Inference.Fed.put (h : i.Fed owner arguments k) {p : GenericParameter}
    (hp : p.owner = owner) (hk : p.position = k) {a : TypeId} (ha : arguments[k]? = some a) :
    (i.put p a).Fed owner arguments (k + 1) := by
  obtain ⟨hlt, -⟩ := List.getElem?_eq_some_iff.mp ha
  have ho : i.owns p := h.owns hp (hk ▸ hlt)
  have hnone : i.bound? p = none := by
    rw [h.bound?_eq ho hp, hk, if_neg (Nat.lt_irrefl k)]
  refine ⟨fun hq hlt => ?_, fun {q} hoq hq => ?_, fun {q} hoq hq => ?_⟩
  · rw [owns_put]
    exact h.owns hq hlt
  -- Of the slots of the owner the one at `k` is filled now; those before it were, those behind are
  -- not.
  · rw [owns_put] at hoq
    by_cases hqk : q.position = k
    · have hself := bound?_put_self a ho
      rw [if_pos (hqk ▸ Nat.lt_succ_self k), hqk, ha, ← hself]
      unfold bound?
      rw [hq, hp, hqk, hk]
    · rw [bound?_put_of_ne a ho hoq hnone fun hsame => hqk (hsame.2.trans hk), h.bound?_eq hoq hq]
      exact if_congr (by omega) rfl rfl
  · rw [owns_put] at hoq
    rw [bound?_put_of_ne a ho hoq hnone fun hsame => hq (hsame.1.trans hp)]
    exact h.bound?_of_ne hoq hq

theorem Inference.Fed.all_clean (h : i.Fed owner arguments k)
    (harguments : ∀ a ∈ arguments, s.IsClean i.owns a) : i.All (s.IsClean i.owns) := by
  intro p b ho hb
  by_cases hp : p.owner = owner
  · rw [h.bound?_eq ho hp] at hb
    split at hb
    · exact harguments b (List.mem_of_getElem? hb)
    · cases hb
  · rw [h.bound?_of_ne ho hp] at hb
    cases hb

/-- **Arguments that are fed one by one** satisfy their parameters, and constraints look back. -/
structure Store.Feeds (s : Store) (σ : Substitution) (owns : GenericParameter → Bool)
    (owner : Owner) (arguments parameters : List TypeId) : Prop where
  /-- The parameters are those of the owner, in order. -/
  place : ∀ {k : Nat} {t}, parameters[k]? = some t → s.form t = .parameter owner k
  /-- The arguments are held, and mention no parameter with a slot. -/
  clean : ∀ a ∈ arguments, s.IsClean owns a
  /-- The substitution puts the arguments in place of the parameters, -/
  lookup_of_owner : ∀ {p : GenericParameter}, p.owner = owner → σ.lookup p = arguments[p.position]?
  /-- and it replaces nothing else. -/
  lookup_of_ne : ∀ {p : GenericParameter}, p.owner ≠ owner → σ.lookup p = none
  /-- The arguments satisfy the parameters. -/
  admits : List.Forall₂ (s.Admits σ) arguments parameters
  /-- Constraints mention no parameter that is left to be bound. -/
  looksBack : s.LooksBack owns parameters

variable {parameters : List TypeId} {owns : GenericParameter → Bool}
  (h : s.Feeds σ owns owner arguments parameters)

include h

/-- What the substitution puts in place of the parameters that a constraint mentions is bound, once
the argument that is checked is. -/
theorem Store.Feeds.sends (hfed : i.Fed owner arguments (k + 1)) (howns : i.owns = owns)
    {t c : TypeId} (ht : parameters[k]? = some t) (hc : c ∈ (s.info t).constraints) {x y : TypeId}
    {q : GenericParameter} (hx : s.Mentions c x) (hq : (s.info x).shape = .parameter q)
    (hsends : σ.Sends x q y) : i.Sends x q y := by
  by_cases ho : i.owns q
  · obtain ⟨j, hj, hplace⟩ := h.looksBack k t ht c hc x q hx hq (howns ▸ ho)
    obtain ⟨q', hq', howner, hposition⟩ := TypeInfo.form_eq_parameter_iff.mp (h.place hplace)
    obtain rfl : q = q' := Shape.parameter.inj (hq.symm.trans hq')
    obtain ⟨b, hb⟩ : ∃ b, arguments[j]? = some b := by
      obtain ⟨hlt, -⟩ := List.getElem?_eq_some_iff.mp hplace
      exact ⟨_, List.getElem?_eq_getElem (h.admits.length_eq ▸ hlt)⟩
    rw [Substitution.Sends, h.lookup_of_owner howner, hposition, hb] at hsends
    obtain rfl : y = b := hsends
    rw [Inference.sends_of_owns ho, hfed.bound?_eq ho howner, hposition, hb,
      if_pos (Nat.lt_succ_of_le hj)]
  · rw [Bool.not_eq_true] at ho
    by_cases howner : q.owner = owner
    · -- A parameter of the owner without a slot has no argument.
      have hlt : ¬ q.position < arguments.length := fun hlt =>
        Bool.eq_false_iff.mp ho (hfed.owns howner hlt)
      rw [Substitution.Sends, h.lookup_of_owner howner,
        List.getElem?_eq_none (Nat.le_of_not_lt hlt)] at hsends
      exact (Inference.sends_of_not_owns ho).mpr hsends
    · rw [Substitution.Sends, h.lookup_of_ne howner] at hsends
      exact (Inference.sends_of_not_owns ho).mpr hsends

/-- What the substitution puts in place of parameters is held. -/
theorem Store.Feeds.heldBy : σ.HeldBy s := by
  intro p u hu
  by_cases howner : p.owner = owner
  · rw [h.lookup_of_owner howner] at hu
    exact (h.clean u (List.mem_of_getElem? hu)).holds
  · rw [h.lookup_of_ne howner] at hu
    cases hu

/-- **The arguments that are left are bound one after another.** -/
theorem Store.Feeds.eventually_matchAll (hs : s.WellFormed) (hsc : s.Scoped)
    (hfed : i.Fed owner arguments k) (howns : i.owns = owns) {pairs : List (TypeId × TypeId)}
    (hpairs : (arguments.zip parameters).drop k = pairs) :
    ∀ᶠ depth in Filter.atTop, ∀ cost, ∃ j, matchAll s depth pairs { i with cost := cost } = some j ∧
      i.Extends j ∧ ∀ {p : GenericParameter}, j.owns p → p.owner = owner →
        j.bound? p = arguments[p.position]? := by
  -- The induction is on the arguments that are left: `Fed` says that those before them are bound,
  -- and by `looksBack` the constraints of the next one mention no others.
  induction pairs generalizing i k with
  | nil =>
    refine .of_forall fun depth cost => ⟨_, rfl, ⟨.refl _, .refl _⟩, fun {p} ho hp => ?_⟩
    have hk : arguments.length ≤ k := by
      have hlen := List.drop_eq_nil_iff.mp hpairs
      rwa [List.length_zip, ← h.admits.length_eq, Nat.min_self] at hlen
    refine (hfed.bound?_eq ho hp).trans ?_
    split
    · rfl
    · exact (List.getElem?_eq_none (by omega)).symm
  | cons pair pairs ih =>
    have hpair : (arguments.zip parameters)[k]? = some pair := by
      rw [← Nat.add_zero k, ← List.getElem?_drop, hpairs, List.getElem?_cons_zero]
    have hrest : (arguments.zip parameters).drop (k + 1) = pairs := by
      rw [← List.tail_drop, hpairs, List.tail_cons]
    obtain ⟨ha, ht⟩ := List.getElem?_zip_eq_some.mp hpair
    have hfits := (List.forall₂_iff_zip.mp h.admits).2 (List.mem_of_getElem? hpair)
    obtain ⟨p, hp, howner, hposition⟩ := TypeInfo.form_eq_parameter_iff.mp (h.place ht)
    obtain ⟨hlt, -⟩ := List.getElem?_eq_some_iff.mp ha
    have ho : i.owns p := hfed.owns howner (hposition ▸ hlt)
    have hnone : i.bound? p = none := by
      rw [hfed.bound?_eq ho howner, hposition, if_neg (Nat.lt_irrefl k)]
    have hput := Inference.Extends.put pair.1 hnone
    have hfed' := hfed.put howner hposition ha
    have hcs : (s.info pair.2).constraints = p.constraints := TypeInfo.constraints_of_parameter hp
    have howns' : (i.put p pair.1).owns = owns := (funext hput.owns_eq).trans howns
    have hclean : ∀ a ∈ arguments, s.IsClean i.owns a := howns ▸ h.clean
    filter_upwards [ih hfed' howns' hrest, eventually_binds hs hsc h.heldBy (hfed.all_clean hclean)
      (hclean _ (List.mem_of_getElem? ha)) hp ho hnone hfits fun c hc x q y hx hq hy =>
        h.sends hfed' howns' ht (hcs ▸ hc) hx hq hy] with depth hrest hbinds cost
    obtain ⟨cost', hbinds⟩ := hbinds cost
    obtain ⟨j, hj, hext, hbound⟩ := hrest cost'
    refine ⟨j, ?_, hput.trans hext, hbound⟩
    rw [matchAll, List.foldlM_cons, matches_eq_some_iff.mpr hbinds]
    exact hj

end All

/-! ### Definitions and methods -/

/-- Before anything is bound no argument is. -/
theorem Inference.Fed.start {i : Inference} {owner : Owner} {arguments : List TypeId}
    (howns : ∀ {p : GenericParameter}, p.owner = owner → p.position < arguments.length → i.owns p)
    (htype : ∀ k, i.typeSlots.get? k = none) (hmethod : ∀ k, i.methodSlots.get? k = none) :
    i.Fed owner arguments 0 := by
  have hnone : ∀ p, i.bound? p = none := fun p => by
    unfold bound?
    cases p.owner with
    | type => exact htype _
    | method => exact hmethod _
  exact ⟨howns, fun _ _ => (hnone _).trans (if_neg (Nat.not_lt_zero _)).symm, fun _ _ => hnone _⟩

/-- A definition is closed with arguments that its slots take. -/
theorem Resolver.close_of_matchAll {resolver : Resolver} {s : Store} {definition : TypeId}
    {arguments : List TypeId} {j : Inference} (hdef : (s.info definition).isDefinition)
    (hlen : (s.genericParameters definition).length = arguments.length)
    (h : matchAll s resolver.depth (arguments.zip (s.genericParameters definition))
      (definitionStart s definition) = some j) :
    resolver.close definition arguments s =
      (some <$> ofTypes (construct definition arguments)) s := by
  unfold definitionStart at h
  rw [close, get_bind_apply, hdef]
  dsimp only
  rw [if_neg (by decide), if_neg (not_not.mpr hlen), h, map_eq_pure_bind]

section Feeds

variable {s : Store} (hs : s.WellFormed) {arguments : List TypeId}

include hs

/-- Arguments of a definition are fed to its own parameters. -/
theorem Store.Feeds.of_definition {definition : TypeId} (hdef : (s.info definition).isDefinition)
    (hclean : ∀ a ∈ arguments, s.IsClean (definitionStart s definition).owns a)
    (hback : s.LooksBack (definitionStart s definition).owns (s.genericParameters definition))
    (hargs : List.Forall₂ (s.Admits (.forType definition arguments)) arguments
      (s.genericParameters definition)) :
    s.Feeds (.forType definition arguments) (definitionStart s definition).owns (.type definition)
      arguments (s.genericParameters definition) := by
  refine ⟨fun {k t} ht => ?_, hclean, fun hp => Substitution.lookup_forType hp _,
    fun hp => Substitution.lookup_forType_of_ne hp _, hargs, hback⟩
  rw [Store.genericParameters, if_pos hdef] at ht
  obtain ⟨hnone, -⟩ := Bool.and_eq_true_iff.mp hdef
  obtain ⟨shape, d, hf⟩ := hs.parts_of_arguments (List.ne_nil_of_mem (List.mem_of_getElem? ht))
  obtain rfl : d = none :=
    (TypeInfo.form_eq_named_iff.mp hf).2.1.symm.trans (Option.isNone_iff_eq_none.mp hnone)
  exact hs.own_parameter hf ht

variable (hsc : s.Scoped)

include hsc

/-- A definition is closed with arguments that satisfy its parameters. -/
theorem Resolver.exists_close_eq {definition : TypeId} (hdef : (s.info definition).isDefinition)
    (hfeeds : s.Feeds (.forType definition arguments) (definitionStart s definition).owns
      (.type definition) arguments (s.genericParameters definition)) :
    ∃ n, ∀ resolver : Resolver, n ≤ resolver.depth →
      resolver.close definition arguments s =
        (some <$> ofTypes (construct definition arguments)) s := by
  have hlen := hfeeds.admits.length_eq
  have hfed : (definitionStart s definition).Fed (.type definition) arguments 0 := by
    refine .start (fun {p} hp hlt => ?_) (Slots.get?_ofArity _ _) Slots.get?_empty
    rw [hlen] at hlt
    simp [definitionStart, Inference.owns, hp, Slots.owns, Slots.ofArity, Slots.arity, hlt]
  obtain ⟨n, hn⟩ := Filter.eventually_atTop.mp
    (hfeeds.eventually_matchAll hs hsc hfed rfl List.drop_zero)
  refine ⟨n, fun resolver hdepth => ?_⟩
  obtain ⟨j, hj, -⟩ := hn resolver.depth hdepth {}
  exact Resolver.close_of_matchAll hdef hlen.symm hj

/-- An open method takes arguments that satisfy its parameters into its slots. -/
theorem exists_matchMethodArguments {queried : TypeId} {member : Member} {token : MethodToken}
    {query : Query} (hopen : member.openMethod = some token)
    (hfeeds : s.Feeds (.forMethod token query.methodArguments)
      (evaluationStart s queried member).start.owns (.method token) query.methodArguments
      member.genericParameters) :
    ∃ n, ∀ depth, n ≤ depth → ∃ j,
      matchMethodArguments s depth query member (evaluationStart s queried member).start = some j ∧
        j.methodSlots.values = some query.methodArguments := by
  have hlen := hfeeds.admits.length_eq
  have howner : member.methodOwner = some (.method token) := by
    rw [Member.methodOwner, hopen]
    rfl
  have hslots : methodSlots member =
      Slots.ofArity (.method token) member.genericParameters.length := by
    rw [methodSlots, howner]
  have howns : ∀ {p : GenericParameter}, p.owner = .method token →
      p.position < query.methodArguments.length →
        (evaluationStart s queried member).start.owns p := fun {p} hp hlt => by
    rw [hlen] at hlt
    simp [evaluationStart, Inferred.start, Inference.owns, hp, hslots, Slots.owns, Slots.ofArity,
      Slots.arity, hlt]
  obtain ⟨n, hn⟩ := Filter.eventually_atTop.mp (hfeeds.eventually_matchAll hs hsc
    (.start howns get?_typeSlots get?_methodSlots) rfl List.drop_zero)
  refine ⟨n, fun depth hdepth => ?_⟩
  obtain ⟨j, hj, hext, hbound⟩ := hn depth hdepth {}
  have hvalues : j.methodSlots.values = some query.methodArguments := by
    refine Slots.values_of_get? ?_ fun k hk => ?_
    · rw [hext.methodSlots.arity_eq, hlen]
      change (methodSlots member).arity = _
      rw [hslots, Slots.arity, Slots.ofArity, List.length_replicate]
    · exact hbound (p := { owner := .method token, position := k })
        ((hext.owns_eq _).trans (howns rfl hk)) rfl
  refine ⟨j, ?_, hvalues⟩
  unfold matchMethodArguments
  split
  case isTrue hempty =>
    -- No arguments are given, so there is nothing to match.
    rw [List.isEmpty_iff.mp hempty] at hj
    exact hj
  case isFalse =>
    rw [if_neg]
    · exact hj
    · rw [hopen, hlen]
      simp

end Feeds

/-- **Given arguments are accepted** where constraints look back. Where hierarchies are scoped, a
definition is closed with arguments that satisfy its parameters, and a candidate that is an open
method takes such arguments into its slots: each has what the special constraints ask for, and each
of the constraints with all of the arguments in place. -/
theorem given_arguments_accepted {s : Store} (hreach : s.Reachable fun s op => op.Scoped s) :
    (∀ (definition : TypeId) (arguments : List TypeId), (s.info definition).isDefinition →
      (∀ a ∈ arguments, s.IsClean (definitionStart s definition).owns a) →
      s.LooksBack (definitionStart s definition).owns (s.genericParameters definition) →
      List.Forall₂ (s.Admits (.forType definition arguments)) arguments
        (s.genericParameters definition) →
      ∃ n, ∀ resolver : Resolver, n ≤ resolver.depth →
        resolver.close definition arguments s =
          (some <$> ofTypes (construct definition arguments)) s) ∧
    ∀ (queried : TypeId) (member : Member) (token : MethodToken) (query : Query),
      member.openMethod = some token →
      (∀ (k : Nat) t, member.genericParameters[k]? = some t →
        s.form t = .parameter (.method token) k) →
      (∀ a ∈ query.methodArguments, s.IsClean (evaluationStart s queried member).start.owns a) →
      s.LooksBack (evaluationStart s queried member).start.owns member.genericParameters →
      List.Forall₂ (s.Admits (.forMethod token query.methodArguments)) query.methodArguments
        member.genericParameters →
      ∃ n, ∀ depth, n ≤ depth → ∃ j,
        matchMethodArguments s depth query member (evaluationStart s queried member).start =
            some j ∧
          j.methodSlots.values = some query.methodArguments := by
  have hs := hreach.wellFormed
  have hsc := hreach.scoped_store
  refine ⟨fun definition arguments hdef hclean hback hargs => ?_,
    fun queried member token query hopen hplace hclean hback hargs => ?_⟩
  · exact Resolver.exists_close_eq hs hsc hdef (.of_definition hs hdef hclean hback hargs)
  · exact exists_matchMethodArguments hs hsc hopen ⟨hplace _ _, hclean,
      fun hp => Substitution.lookup_forMethod hp _,
      fun hp => Substitution.lookup_forMethod_of_ne hp _, hargs, hback⟩

/-! ### Constraints that look back, and one that looks forward -/

section Checks

variable {s : Store}

/-- The test whether a type has a constraint, with a bound on the depth of the match. -/
def Store.meetsWithin (s : Store) (depth : Nat) (a constraint replaced : TypeId) : Bool :=
  if (s.info constraint).isInterface then (s.matches depth a .contravariant replaced {}).isSome
  else (s.ancestors a).contains replaced

theorem Store.Meets.of_check {depth : Nat} {a constraint replaced : TypeId}
    (h : s.meetsWithin depth a constraint replaced) : s.Meets a constraint replaced := by
  unfold meetsWithin at h
  split at h
  case isTrue hc => exact .interface hc ⟨depth, Option.isSome_iff_exists.mp h⟩
  case isFalse hc => exact .ancestor (Bool.eq_false_iff.mpr hc) (List.contains_iff_mem.mp h)

/-- The test whether an argument satisfies its parameter. -/
def Store.admitsWithin (s : Store) (depth : Nat) (σ : Substitution) (a t : TypeId) : Bool :=
  ((s.info t).parameter?.all fun p => satisfiesFlags s a p.flags) &&
    (s.info t).constraints.all fun c =>
      succeedsWith (substitute σ c) s fun c' s' => s'.meetsWithin depth a c c'

theorem Store.Admits.of_check {depth : Nat} {σ : Substitution} {a t : TypeId}
    (h : s.admitsWithin depth σ a t) : s.Admits σ a t := by
  obtain ⟨hflags, hconstraints⟩ := Bool.and_eq_true_iff.mp h
  refine ⟨fun p hp => ?_, fun c hc => ?_⟩
  · rw [TypeInfo.parameter?_eq_some_iff.mpr hp] at hflags
    exact hflags
  · obtain ⟨c', s', hsub, hmeets⟩ := exists_of_succeedsWith (List.all_eq_true.mp hconstraints c hc)
    exact ⟨c', s', hsub, .of_check hmeets⟩

/-- The test whether constraints look back. -/
def Store.looksBackWithin (s : Store) (owns : GenericParameter → Bool) (parameters : List TypeId) :
    Bool :=
  parameters.zipIdx.all fun (t, k) =>
    (s.info t).constraints.all fun c => (s.mentioned c).all fun q =>
    !(s.info q).parameter?.any owns || (parameters.take (k + 1)).contains q

theorem Store.LooksBack.of_check (hs : s.WellFormed) {owns : GenericParameter → Bool}
    {parameters : List TypeId} (h : s.looksBackWithin owns parameters) :
    s.LooksBack owns parameters := by
  intro k t ht c hc q p hq hp ho
  have hpair := List.all_eq_true.mp h (t, k) (List.mk_mem_zipIdx_iff_getElem?.mpr ht)
  have hmem := (Store.mem_mentioned_iff hs.toFormed (hs.holds_constraint hc)).mpr hq
  have hback := List.all_eq_true.mp (List.all_eq_true.mp hpair c hc) q hmem
  rw [TypeInfo.parameter?_eq_some_iff.mpr hp, Option.any_some, ho, Bool.not_true, Bool.false_or,
    List.contains_iff_mem] at hback
  obtain ⟨j, hj⟩ := List.mem_iff_getElem?.mp hback
  rw [List.getElem?_take] at hj
  split at hj
  · exact ⟨j, by omega, hj⟩
  · cases hj

end Checks

open Operation in
/-- A run that makes a key which is comparable with integers and with texts, two definitions with a
parameter that is comparable with the other, before it and behind it, and a method of the second
kind. -/
def keyRun : List Operation :=
  [.define "Key" .classKind [], .addInterface ⟨27⟩ ⟨17⟩, .addInterface ⟨27⟩ ⟨23⟩,
    .define "Lookup" .classKind ["T", "U"], .construct Core.equatable [⟨30⟩],
    .constrain ⟨29⟩ Flags.none [⟨31⟩],
    .define "Index" .classKind ["U", "T"], .construct Core.equatable [⟨33⟩],
    .constrain ⟨34⟩ Flags.none [⟨35⟩],
    .newMethod, .methodParameters ⟨0⟩ ["U", "T"], .construct Core.equatable [⟨36⟩],
    .constrain ⟨37⟩ Flags.none [⟨38⟩]]

/-- The store after that run. -/
def keyStore : Store :=
  Store.initial.afterAll keyRun

theorem reachable_keyStore : keyStore.Reachable fun s op => op.Scoped s :=
  .of_scopedRun (by decide +kernel)

/-- A method whose second parameter is comparable with the first. -/
def indexMethod : Member :=
  (Member.method "Find" Core.object [] Core.void).withGenericMethod ⟨0⟩ [⟨36⟩, ⟨37⟩]

/-- Texts, and keys that are comparable with them, are closed types. -/
theorem isClean_keyStore (owns : GenericParameter → Bool) :
    ∀ a ∈ [Core.string, ⟨27⟩], keyStore.IsClean owns a := by
  have hclosed : ∀ a ∈ [Core.string, ⟨27⟩],
      a.index < keyStore.size ∧ keyStore.isOpen a = false := by
    decide +kernel
  exact fun a ha => .of_not_isOpen reachable_keyStore.wellFormed.toFormed (hclosed a ha).1
    (hclosed a ha).2

/-- An index of keys by texts is made, and a method on keys and texts is called. -/
theorem given_arguments_accepted_key :
    (∃ n, ∀ resolver : Resolver, n ≤ resolver.depth →
      resolver.close ⟨32⟩ [Core.string, ⟨27⟩] keyStore =
        (some <$> ofTypes (construct ⟨32⟩ [Core.string, ⟨27⟩])) keyStore) ∧
    ∃ n, ∀ depth, n ≤ depth → ∃ j,
      matchMethodArguments keyStore depth
        { kind := .method, name := "Find", methodArguments := [Core.string, ⟨27⟩] } indexMethod
        (evaluationStart keyStore Core.object indexMethod).start = some j ∧
      j.methodSlots.values = some [Core.string, ⟨27⟩] := by
  have hs := reachable_keyStore.wellFormed
  have hindex : (keyStore.info ⟨32⟩).isDefinition ∧ keyStore.genericParameters ⟨32⟩ = [⟨33⟩, ⟨34⟩] ∧
      keyStore.looksBackWithin (definitionStart keyStore ⟨32⟩).owns
        (keyStore.genericParameters ⟨32⟩) ∧
      keyStore.admitsWithin 30 (.forType ⟨32⟩ [Core.string, ⟨27⟩]) Core.string ⟨33⟩ ∧
      keyStore.admitsWithin 30 (.forType ⟨32⟩ [Core.string, ⟨27⟩]) ⟨27⟩ ⟨34⟩ := by decide +kernel
  have hfind : keyStore.form ⟨36⟩ = .parameter (.method ⟨0⟩) 0 ∧
      keyStore.form ⟨37⟩ = .parameter (.method ⟨0⟩) 1 ∧
      keyStore.looksBackWithin (evaluationStart keyStore Core.object indexMethod).start.owns
        indexMethod.genericParameters ∧
      keyStore.admitsWithin 30 (.forMethod ⟨0⟩ [Core.string, ⟨27⟩]) Core.string ⟨36⟩ ∧
      keyStore.admitsWithin 30 (.forMethod ⟨0⟩ [Core.string, ⟨27⟩]) ⟨27⟩ ⟨37⟩ := by decide +kernel
  obtain ⟨hdef, hparameters, hback, hfirst, hsecond⟩ := hindex
  obtain ⟨hform, hform', hback', hfirst', hsecond'⟩ := hfind
  obtain ⟨hdefinition, hmethod⟩ := given_arguments_accepted reachable_keyStore
  refine ⟨hdefinition ⟨32⟩ _ hdef (isClean_keyStore _) (.of_check hs hback) ?_,
    hmethod Core.object indexMethod ⟨0⟩
      { kind := .method, name := "Find", methodArguments := [Core.string, ⟨27⟩] } rfl ?_
      (isClean_keyStore _) (.of_check hs hback')
      (.cons (.of_check hfirst') (.cons (.of_check hsecond') .nil))⟩
  · rw [hparameters]
    exact .cons (.of_check hfirst) (.cons (.of_check hsecond) .nil)
  · rintro (_ | _ | k) t ht
    · cases ht
      exact hform
    · cases ht
      exact hform'
    · cases ht

/-- **Arguments may be refused because of their order.** The key is comparable with the text that is
given behind it. But what it is comparable with is looked for before the text is seen, and the
integers are found first; then the text is refused. In the opposite order the same types are
accepted. -/
theorem given_arguments_refused :
    (∀ a ∈ [⟨27⟩, Core.string], keyStore.IsClean (definitionStart keyStore ⟨28⟩).owns a) ∧
    List.Forall₂ (keyStore.Admits (.forType ⟨28⟩ [⟨27⟩, Core.string])) [⟨27⟩, Core.string]
      (keyStore.genericParameters ⟨28⟩) ∧
    (∃ s', ({} : Resolver).close ⟨28⟩ [⟨27⟩, Core.string] keyStore = .ok none s') ∧
    ∃ c s', ({} : Resolver).close ⟨32⟩ [Core.string, ⟨27⟩] keyStore = .ok (some c) s' := by
  have hlookup : keyStore.genericParameters ⟨28⟩ = [⟨29⟩, ⟨30⟩] ∧
      keyStore.admitsWithin 30 (.forType ⟨28⟩ [⟨27⟩, Core.string]) ⟨27⟩ ⟨29⟩ ∧
      keyStore.admitsWithin 30 (.forType ⟨28⟩ [⟨27⟩, Core.string]) Core.string ⟨30⟩ ∧
      succeedsWith (({} : Resolver).close ⟨28⟩ [⟨27⟩, Core.string]) keyStore
        (fun closed _ => closed.isNone) ∧
      succeedsWith (({} : Resolver).close ⟨32⟩ [Core.string, ⟨27⟩]) keyStore
        (fun closed _ => closed.isSome) := by decide +kernel
  obtain ⟨hparameters, hfirst, hsecond, hrefused, haccepted⟩ := hlookup
  refine ⟨fun a ha => isClean_keyStore _ a (List.mem_pair.mpr (List.mem_pair.mp ha).symm),
    ?_, ?_, ?_⟩
  · rw [hparameters]
    exact .cons (.of_check hfirst) (.cons (.of_check hsecond) .nil)
  · obtain ⟨closed, s', hclose, hnone⟩ := exists_of_succeedsWith hrefused
    exact ⟨s', Option.isNone_iff_eq_none.mp hnone ▸ hclose⟩
  · obtain ⟨closed, s', hclose, hsome⟩ := exists_of_succeedsWith haccepted
    obtain ⟨c, rfl⟩ := Option.isSome_iff_exists.mp hsome
    exact ⟨c, s', hclose⟩

end CallSite
