import CallSite.Proofs.Match.Closed
import CallSite.Proofs.Type.Hierarchy
import CallSite.Proofs.Type.Reachable

/-!
# Which types flow into which

Without slots a match infers nothing, and the search for a way from a source to a member comes down
to a walk along one list of types, the **lineage** of the source (`Store.lineage`): its chain of
bases, and the root behind it where that chain ends with an interface.

* `Store.Reaches` – a type of the lineage needs no further step: it is the member, has the member
  among its interfaces, or is what the member takes besides null.
* `matchWithin_invariant` – an invariant match without slots is a comparison, so none of the other
  ways that are tried at each level is ever taken.
* `assignable_iff` – a source flows into a member exactly when some type of its lineage reaches the
  member, and what is counted are the steps to the first one that does.
-/

namespace CallSite

namespace Store

variable {s : Store}

/-! ### The lineage of a type -/

/-- **The lineage of a type**: its ancestors, followed by those of the root where the last of them
is an interface. -/
def lineage (s : Store) (t : TypeId) : List TypeId :=
  s.ancestors t ++
    if (s.ancestors t).getLast?.any fun last =>
      (s.info last).isInterface && (s.info last).base.isNone
    then s.ancestors Core.object else []

theorem ancestors_of_base_eq_none {t : TypeId} (h : (s.info t).base = none) :
    s.ancestors t = [t] := by
  rw [ancestors]
  cases s.size with
  | zero => rfl
  | succ n => rw [ancestorsWithin, h]

theorem head?_lineage (s : Store) (t : TypeId) : (s.lineage t).head? = some t := by
  rw [lineage, List.head?_append, head?_ancestors]
  rfl

theorem baseStep_of_baseOf {a b : TypeId} (h : s.BaseOf a b) : baseStep s a = some b := by
  rw [baseStep, show (s.info a).base = some b from h]

section Lineage

variable (hs : s.WellFormed) (hobject : (s.info Core.object).base = none) {t : TypeId}
  (ht : s.Holds t)

include hs hobject

/-- The root has no step to a base. -/
theorem baseStep_object : baseStep s Core.object = none := by
  have hshape := (TypeInfo.form_eq_named_iff.mp hs.form_object).1
  rw [baseStep, hobject]
  dsimp only
  rw [if_neg]
  rw [TypeInfo.isInterface_iff, hshape]
  exact Shape.noConfusion

omit hs in
/-- The lineage goes on from each type by a step to its base. -/
theorem isChain_lineage (t : TypeId) :
    (s.lineage t).IsChain fun a b => baseStep s a = some b := by
  have hchain := ((isChain_ancestorsWithin (s := s) s.size [] t).2).imp
    fun _ _ h => baseStep_of_baseOf h
  rw [lineage]
  split
  case isFalse =>
    rw [List.append_nil]
    exact hchain
  case isTrue hlast =>
    rw [ancestors_of_base_eq_none hobject]
    refine List.isChain_append.mpr ⟨hchain, .singleton _, fun last hmem o ho => ?_⟩
    obtain rfl := Option.some.inj ho
    rw [Option.mem_def.mp hmem] at hlast
    obtain ⟨hinterface, hnone⟩ := Bool.and_eq_true_iff.mp hlast
    rw [baseStep, Option.isNone_iff_eq_none.mp hnone]
    exact if_pos hinterface

omit hs hobject in
/-- Only the last of the ancestors has no base. -/
theorem getLast?_ancestors_of_base_eq_none {t a : TypeId} (ha : a ∈ s.ancestors t)
    (hbase : (s.info a).base = none) : (s.ancestors t).getLast? = some a := by
  obtain ⟨before, after, hsplit⟩ := List.append_of_mem ha
  have hafter : after = [] := by
    cases after with
    | nil => rfl
    | cons c after =>
      have hchain := (isChain_ancestorsWithin (s := s) s.size [] t).2
      rw [← ancestors, hsplit] at hchain
      have hac := (List.isChain_append_cons_cons.mp hchain).2.1
      exact absurd (hbase.symm.trans hac) (Option.some_ne_none c).symm
  rw [hsplit, hafter, List.getLast?_append, List.getLast?_singleton, Option.some_or]

include ht

/-- The lineage has every type that a step from one of its types leads to. -/
theorem baseStep_mem_lineage {a b : TypeId} (ha : a ∈ s.lineage t) (hb : baseStep s a = some b) :
    b ∈ s.lineage t := by
  rw [lineage] at ha ⊢
  rcases List.mem_append.mp ha with ha | ha
  · cases hbase : (s.info a).base with
    | some c =>
      rw [baseStep, hbase] at hb
      obtain rfl := Option.some.inj hb
      refine List.mem_append_left _ ?_
      exact (base_mem_ancestorsWithin hs ht List.not_mem_nil (s.unmet_nil ▸ Nat.le_refl _) ha
        hbase).resolve_right List.not_mem_nil
    | none =>
      rw [baseStep, hbase] at hb
      dsimp only at hb
      split at hb
      case isFalse => cases hb
      case isTrue hinterface =>
        obtain rfl := Option.some.inj hb
        have hlast := getLast?_ancestors_of_base_eq_none ha hbase
        refine List.mem_append_right _ ?_
        rw [hlast, if_pos (by rw [Option.any_some, hinterface, hbase]; rfl),
          ancestors_of_base_eq_none hobject]
        exact List.mem_cons_self
  · split at ha
    case isFalse => cases ha
    case isTrue =>
      rw [ancestors_of_base_eq_none hobject] at ha
      obtain rfl := List.mem_singleton.mp ha
      rw [baseStep_object hs hobject] at hb
      cases hb

end Lineage

/-! ### Reaching a member -/

/-- **A type has no reference among its parts**, and is none itself. -/
inductive NoReference (s : Store) : TypeId → Prop
  /-- A type that is no reference and whose parts have none. -/
  | intro {t : TypeId} : (s.info t).isByRef = false → (∀ u ∈ s.parts t, NoReference s u) →
      NoReference s t

theorem NoReference.not_byRef {t : TypeId} (h : s.NoReference t) : (s.info t).isByRef = false := by
  cases h with
  | intro h _ => exact h

theorem NoReference.part {t u : TypeId} (h : s.NoReference t) (hu : u ∈ s.parts t) :
    s.NoReference u := by
  cases h with
  | intro _ h => exact h u hu

/-- **A type reaches a member** without a step to a base. -/
inductive Reaches (s : Store) (c m : TypeId) : Prop
  /-- It is the member. -/
  | self : c = m → Reaches s c m
  /-- The member is one of its interfaces. -/
  | interface : (s.info m).isInterface → m ∈ s.allInterfaces c → Reaches s c m
  /-- The member takes its values and null, which it does not itself. -/
  | nullable : s.nullableUnderlying m = some c → (s.info c).isValueType →
      s.nullableUnderlying c = none → Reaches s c m

theorem reaches_iff {c m : TypeId} : s.Reaches c m ↔ c = m ∨
    ((s.info m).isInterface ∧ m ∈ s.allInterfaces c) ∨
    (s.nullableUnderlying m = some c ∧ (s.info c).isValueType ∧ s.nullableUnderlying c = none) := by
  refine ⟨fun h => ?_, fun h => ?_⟩
  · cases h with
    | self h => exact .inl h
    | interface h h' => exact .inr (.inl ⟨h, h'⟩)
    | nullable h h' h'' => exact .inr (.inr ⟨h, h', h''⟩)
  · obtain h | ⟨h, h'⟩ | ⟨h, h', h''⟩ := h
    · exact .self h
    · exact .interface h h'
    · exact .nullable h h' h''

instance (c m : TypeId) : Decidable (s.Reaches c m) :=
  decidable_of_iff' _ reaches_iff

/-- **A climb to the first type that reaches a member**: each type before it is left by a step to
its base. -/
inductive Climbs (s : Store) (m : TypeId) : TypeId → List TypeId → TypeId → Prop
  /-- The type reaches the member. -/
  | done {c : TypeId} : s.Reaches c m → Climbs s m c [] c
  /-- It does not, and its base is climbed from. -/
  | step {t b c : TypeId} {steps : List TypeId} : ¬ s.Reaches t m → baseStep s t = some b →
      Climbs s m b steps c → Climbs s m t (b :: steps) c

namespace Climbs

variable {m t c : TypeId} {steps : List TypeId}

theorem reaches (h : s.Climbs m t steps c) : s.Reaches c m := by
  induction h with
  | done hc => exact hc
  | step _ _ _ ih => exact ih

/-- From a type above which another one reaches the member there is a climb. -/
theorem exists_of_walk (h : Relation.ReflTransGen (fun a b => baseStep s a = some b) t c)
    (hc : s.Reaches c m) : ∃ steps c, s.Climbs m t steps c := by
  induction h using Relation.ReflTransGen.head_induction_on with
  | refl => exact ⟨[], c, .done hc⟩
  | @head t b hstep _ ih =>
    by_cases ht : s.Reaches t m
    · exact ⟨[], t, .done ht⟩
    · obtain ⟨steps, c', h⟩ := ih
      exact ⟨b :: steps, c', .step ht hstep h⟩

/-- A list of types, each followed by its base, is a climb to the first that reaches the member. -/
theorem of_isChain {before : List TypeId}
    (hchain : (before ++ [c]).IsChain fun a b => baseStep s a = some b)
    (hhead : (before ++ [c]).head? = some t) (hbefore : ∀ b ∈ before, ¬ s.Reaches b m)
    (hc : s.Reaches c m) : s.Climbs m t (before ++ [c]).tail c := by
  induction before generalizing t with
  | nil =>
    obtain rfl := Option.some.inj hhead
    exact .done hc
  | cons b before ih =>
    obtain rfl := Option.some.inj hhead
    obtain ⟨next, rest, hnext⟩ : ∃ next rest, before ++ [c] = next :: rest :=
      List.exists_cons_of_ne_nil (List.append_ne_nil_of_right_ne_nil _ (List.cons_ne_nil _ _))
    rw [List.cons_append, hnext] at hchain
    obtain ⟨hstep, hchain⟩ := List.isChain_cons_cons.mp hchain
    rw [← hnext] at hchain
    have ih := ih hchain (by rw [hnext]; rfl) fun b' hb' => hbefore b' (List.mem_cons_of_mem _ hb')
    rw [List.cons_append, List.tail_cons, hnext]
    rw [hnext, List.tail_cons] at ih
    exact .step (hbefore b List.mem_cons_self) hstep ih

end Climbs

end Store

/-! ### Invariant matches are comparisons -/

theorem Attempt.all_eq_guard {α β : Type} {step : β → α → Attempt α} (test : β → Bool)
    {items : List β} {a : α} (h : ∀ b ∈ items, step b a = guard (test b) a) :
    all step items a = guard (items.all test) a := by
  induction items with
  | nil => rfl
  | cons b items ih =>
    rw [all, h b List.mem_cons_self, List.all_cons]
    cases test b with
    | false => rfl
    | true => exact ih fun b' hb' => h b' (List.mem_cons_of_mem b hb')

/-- The member mentions no parameter that has a slot. -/
def Inference.Foreign (s : Store) (i : Inference) (member : TypeId) : Prop :=
  ∀ q p, s.Mentions member q → (s.info q).shape = .parameter p → i.owns p = false

section Foreign

variable {s : Store} {member : TypeId} {i j : Inference}

theorem Inference.Foreign.part (h : i.Foreign s member) {u : TypeId} (hu : u ∈ s.parts member) :
    i.Foreign s u :=
  fun q p hq => h q p (.part hu hq)

/-- Costs do not matter. -/
theorem Inference.Foreign.of_cost (h : i.Foreign s member) (hj : j = { i with cost := j.cost }) :
    j.Foreign s member := by
  rw [hj]
  exact h

/-- Without slots every member is foreign. -/
theorem Inference.Foreign.of_empty (s : Store) (cost : MatchCost) (member : TypeId) :
    Inference.Foreign s { cost := cost } member :=
  fun _ p _ _ => Inference.owns_of_empty cost p

end Foreign

section Invariant

variable {s : Store} {depth : Nat} {source member : TypeId} {i : Inference}

/-- Arrays of one rank with the same element are the same. -/
theorem matchElements_eq_refused (hs : s.Formed) (hne : source ≠ member)
    (ih : ∀ t u, u ∈ s.parts member → matchWithin s depth t .invariant u i =
      .guard (t = u) i) :
    matchElements s (matchWithin s depth) source member i = .refused := by
  unfold matchElements
  split
  case h_2 => rfl
  case h_1 e rank e' rank' hsource hmember =>
    have hf := TypeInfo.form_eq_array_iff.mpr hsource
    have hf' := TypeInfo.form_eq_array_iff.mpr hmember
    split
    case isFalse => rfl
    case isTrue hrank =>
      subst hrank
      have hpart : e' ∈ s.parts member := Store.element_mem_parts hf'
      rw [ih e e' hpart, Attempt.guard, if_neg]
      intro heq
      obtain rfl := of_decide_eq_true heq
      refine hne (hs.made_once (hf.trans hf'.symm) ?_)
      rw [Store.form, hf]
      trivial

/-- Types of one definition with the same arguments are the same. -/
theorem matchArguments_eq_refused (hs : s.Formed) (hne : source ≠ member)
    (ih : ∀ t u, u ∈ s.parts member → matchWithin s depth t .invariant u i =
      .guard (t = u) i) :
    matchArguments s (matchWithin s depth) source member i = .refused := by
  unfold matchArguments
  split
  case h_2 => rfl
  case h_1 d d' hsource hmember =>
    dsimp only
    split
    case isFalse => rfl
    case isTrue hcond =>
      obtain ⟨rfl, hlen⟩ := hcond
      rw [Attempt.all_eq_guard (fun pair => pair.1 = pair.2) fun pair hpair =>
        ih pair.1 pair.2 (hs.mem_parts_of_mem_arguments (List.of_mem_zip hpair).2), Attempt.guard,
        if_neg]
      refine fun hall => hne (hs.eq_of_genericDefinition_eq hsource hmember ?_)
      exact eq_of_forall_zip hlen fun pair hpair =>
        of_decide_eq_true (List.all_eq_true.mp hall pair hpair)

/-- **An invariant match that meets no slot is a comparison**, if the member has no references. -/
theorem matchWithin_invariant (hs : s.Formed) (href : s.NoReference member)
    (hforeign : i.Foreign s member) (hdepth : s.height member < depth) :
    matchWithin s depth source .invariant member i =
      .guard (source = member) i := by
  induction depth generalizing source member with
  | zero => exact absurd hdepth (Nat.not_lt_zero _)
  | succ depth ih =>
    have hparts : ∀ t u, u ∈ s.parts member → matchWithin s depth t .invariant u i =
        .guard (t = u) i := fun t u hu =>
      ih (href.part hu) (hforeign.part hu)
        (Nat.lt_of_lt_of_le (hs.height_part hu) (Nat.le_of_lt_succ hdepth))
    cases hp : (s.info member).isParameter with
    | true =>
      obtain ⟨p, hp⟩ := TypeInfo.isParameter_iff.mp hp
      rw [matchWithin, matchStep, hp]
      dsimp only
      rw [matchParameter,
        if_neg (by rw [hforeign _ p (.of_parameter hp) hp]; exact Bool.false_ne_true)]
    | false =>
      rw [matchWithin_succ_of_plain hp href.not_byRef]
      by_cases heq : source = member
      · rw [if_pos heq, Attempt.guard, if_pos (decide_eq_true heq)]
      · rw [if_neg heq, matchElements_eq_refused hs heq hparts,
          matchArguments_eq_refused hs heq hparts, Attempt.guard,
          if_neg (by rw [decide_eq_true_eq]; exact heq)]
        rfl

end Invariant

/-! ### One level of a contravariant match -/

section Level

variable {s : Store} {depth : Nat} {source member : TypeId} {i : Inference}

/-- Of interfaces that are compared with a type, the one that is the type is stepped to. -/
theorem any_interfaces_eq_guard {step : TypeId → Inference → Attempt Inference} {t : TypeId}
    {interfaces : List TypeId} (h : ∀ f ∈ interfaces, step f i = .guard (f = t) i) :
    Attempt.any (fun f i => (step f i).map (Inference.mapCost (MatchCost.addInterfaceStep s f)))
        interfaces i =
      .guard (t ∈ interfaces) { i with cost := i.cost.addInterfaceStep s t } := by
  induction interfaces with
  | nil => rfl
  | cons f fs ih =>
    have ih := ih fun f' hf' => h f' (List.mem_cons_of_mem f hf')
    rw [Attempt.any, h f List.mem_cons_self]
    by_cases heq : f = t
    · subst heq
      rw [Attempt.guard, if_pos (decide_eq_true rfl), Attempt.guard,
        if_pos (decide_eq_true List.mem_cons_self)]
      rfl
    · rw [Attempt.guard, if_neg (by rw [decide_eq_true_eq]; exact heq)]
      refine ih.trans ?_
      rw [Attempt.guard, Attempt.guard]
      simp only [List.mem_cons, Ne.symm heq, false_or]

theorem widenToInterface_of_invariant
    (hinvariant : ∀ t, matchWithin s depth t .invariant member i =
      .guard (t = member) i) :
    widenToInterface s (matchWithin s depth) source member i =
      .guard ((s.info member).isInterface && member ∈ s.allInterfaces source)
        { i with cost := i.cost.addInterfaceStep s member } := by
  unfold widenToInterface
  cases (s.info member).isInterface with
  | false => rfl
  | true =>
    rw [if_pos rfl, Bool.true_and]
    exact any_interfaces_eq_guard fun f _ => hinvariant f

theorem widenToNullable_of_invariant
    (hinvariant : ∀ t u, s.nullableUnderlying member = some u →
      matchWithin s depth t .invariant u i = .guard (t = u) i) :
    widenToNullable s (matchWithin s depth) source member i =
      .guard (s.nullableUnderlying member = some source && (s.info source).isValueType &&
        (s.nullableUnderlying source).isNone) i := by
  unfold widenToNullable
  cases hu : s.nullableUnderlying member with
  | none => rfl
  | some u =>
    dsimp only
    rw [hinvariant source u hu, Attempt.guard, Attempt.guard]
    by_cases heq : source = u
    · subst heq
      simp
    · simp [heq, Ne.symm heq]

/-- The type reaches the member through an interface, since it is not the member itself. -/
def Store.ReachesByInterface (s : Store) (c m : TypeId) : Prop :=
  c ≠ m ∧ (s.info m).isInterface ∧ m ∈ s.allInterfaces c

instance (c m : TypeId) : Decidable (s.ReachesByInterface c m) :=
  inferInstanceAs (Decidable (_ ∧ _ ∧ _))

/-- What is counted along some steps to a base and the way from the last of them to the member. -/
def Store.assignCost (s : Store) (steps : List TypeId) (c m : TypeId) : MatchCost :=
  { totalTypes := steps.length
    genericTypes := steps.countP fun t => (s.info t).isGeneric
    totalInterfaces := MatchCost.one (s.ReachesByInterface c m)
    genericInterfaces := MatchCost.one (s.ReachesByInterface c m ∧ (s.info m).isGeneric) }

theorem Store.assignCost_cons (cost : MatchCost) (steps : List TypeId) (b c m : TypeId) :
    (cost + s.assignCost steps c m).addBaseStep s b = cost + s.assignCost (b :: steps) c m := by
  simp only [MatchCost.addBaseStep, assignCost, MatchCost.add_def, MatchCost.add,
    MatchCost.mk.injEq, List.length_cons, List.countP_cons, MatchCost.one, and_true]
  omega

section Plain

variable (hs : s.WellFormed) (hparam : (s.info member).isParameter = false)
  (href : s.NoReference member) (hforeign : i.Foreign s member) (hdepth : s.height member < depth)

include hs hparam href hforeign hdepth

/-- Between different types only what the variance allows is left. -/
theorem matchWithin_of_ne {v : Variance} (hne : source ≠ member) :
    matchWithin s (depth + 1) source v member i =
      matchVariance s (matchWithin s depth) source v member i := by
  have hparts : ∀ t u, u ∈ s.parts member → matchWithin s depth t .invariant u i =
      .guard (t = u) i := fun t u hu =>
    matchWithin_invariant hs.toFormed (href.part hu) (hforeign.part hu)
      (Nat.lt_trans (hs.height_part hu) hdepth)
  rw [matchWithin_succ_of_plain hparam href.not_byRef, if_neg hne,
    matchElements_eq_refused hs.toFormed hne hparts,
    matchArguments_eq_refused hs.toFormed hne hparts]
  rfl

omit hparam in
/-- What is tried before the step to a base. -/
theorem widen_eq : widen s (matchWithin s depth) source member i =
    (Attempt.guard ((s.info member).isInterface && member ∈ s.allInterfaces source)
      { i with cost := i.cost.addInterfaceStep s member }).orElse fun _ =>
    (Attempt.guard (s.nullableUnderlying member = some source && (s.info source).isValueType &&
      (s.nullableUnderlying source).isNone) i).orElse fun _ =>
    widenToBase s (matchWithin s depth) source member i := by
  rw [widen, widenToInterface_of_invariant fun t =>
    matchWithin_invariant hs.toFormed href hforeign hdepth,
    widenToNullable_of_invariant fun t u hu => ?_]
  have hpart := hs.mem_parts_of_mem_arguments (Store.nullableUnderlying_mem hu)
  exact matchWithin_invariant hs.toFormed (href.part hpart) (hforeign.part hpart)
    (Nat.lt_trans (hs.height_part hpart) hdepth)

/-- **A type that reaches the member flows into it** without a step to a base. -/
theorem matchWithin_of_reaches (h : s.Reaches source member) :
    matchWithin s (depth + 1) source .contravariant member i =
      .accepted { i with cost := i.cost + s.assignCost [] source member } := by
  by_cases heq : source = member
  · rw [matchWithin_succ_of_plain hparam href.not_byRef, if_pos heq]
    simp [Store.assignCost, Store.ReachesByInterface, heq, MatchCost.one]
  rw [matchWithin_of_ne hs hparam href hforeign hdepth heq, matchVariance,
    widen_eq hs href hforeign hdepth]
  cases h with
  | self h => exact absurd h heq
  | interface hinterface hmem =>
    rw [hinterface, Attempt.guard, if_pos (by simpa using hmem), MatchCost.addInterfaceStep_eq]
    simp [Store.assignCost, Store.ReachesByInterface, heq, hinterface, hmem, Attempt.orElse,
      MatchCost.addInterfaceStep, MatchCost.one]
  | nullable hmember hvalue hnone =>
    have hinterface : (s.info member).isInterface = false := by
      refine Bool.eq_false_iff.mpr fun hinterface => ?_
      rw [hs.nullableUnderlying_of_isInterface hinterface] at hmember
      cases hmember
    rw [hinterface, hmember, hvalue, hnone]
    simp [Store.assignCost, Store.ReachesByInterface, hinterface, Attempt.orElse, Attempt.guard,
      MatchCost.one]

/-- From any other type only the step to a base is left. -/
theorem matchWithin_of_not_reaches (h : ¬ s.Reaches source member) :
    matchWithin s (depth + 1) source .contravariant member i =
      widenToBase s (matchWithin s depth) source member i := by
  rw [matchWithin_of_ne hs hparam href hforeign hdepth fun heq => h (.self heq), matchVariance,
    widen_eq hs href hforeign hdepth, Attempt.guard, if_neg, Attempt.orElse, Attempt.guard, if_neg,
    Attempt.orElse]
  · intro hnullable
    simp only [Bool.and_eq_true, decide_eq_true_eq, Option.isNone_iff_eq_none] at hnullable
    exact h (.nullable hnullable.1.1 hnullable.1.2 hnullable.2)
  · intro hinterface
    simp only [Bool.and_eq_true, decide_eq_true_eq] at hinterface
    exact h (.interface hinterface.1 hinterface.2)

/-- **The first type that reaches the member decides**: the types before it are left by a step to
their base, and the steps are counted. -/
theorem matchWithin_of_climbs {steps : List TypeId} {c : TypeId}
    (h : s.Climbs member source steps c) :
    matchWithin s (depth + 1 + steps.length) source .contravariant member i =
      .accepted { i with cost := i.cost + s.assignCost steps c member } := by
  induction h with
  | done hc => exact matchWithin_of_reaches hs hparam href hforeign hdepth hc
  | @step t b c steps hnot hstep _ ih =>
    rw [List.length_cons, ← Nat.add_assoc, matchWithin_of_not_reaches hs hparam href hforeign
      (Nat.lt_add_right _ (Nat.lt_succ_of_lt hdepth)) hnot, widenToBase, hstep]
    dsimp only
    rw [ih, ← Store.assignCost_cons]
    rfl

end Plain

end Level

/-! ### What is accepted reaches the member -/

/-- What every step keeps holds before each of them. -/
theorem Stepwise.exists_kept {α β : Type} {step : β → α → α → Prop} {P : α → Prop} {items : List β}
    {a a' : α} (h : Stepwise step items a a')
    (keep : ∀ b ∈ items, ∀ x y, step b x y → P x → P y) (ha : P a) {b : β} (hb : b ∈ items) :
    ∃ x y, P x ∧ step b x y := by
  induction h with
  | nil => cases hb
  | cons hstep _ ih =>
    rcases List.mem_cons.mp hb with rfl | hb
    · exact ⟨_, _, ha, hstep⟩
    · exact ih (fun b' hb' => keep b' (List.mem_cons_of_mem _ hb'))
        (keep _ List.mem_cons_self _ _ hstep ha) hb

/-- **A match that meets no slot is a walk upwards**: an invariant one compares, and a contravariant
one takes steps to bases to a type that reaches the member. Nothing is bound. -/
def Walks (s : Store) : MatchRelation := fun source v member i j =>
  i.Foreign s member → v ≠ .covariant → j = { i with cost := j.cost } ∧ (s.NoReference member →
    (v = .invariant → source = member) ∧
    (v = .contravariant → (s.info member).isParameter = false → ∃ c,
      Relation.ReflTransGen (fun a b => baseStep s a = some b) source c ∧ s.Reaches c member))

section Walks

variable {s : Store} {source member : TypeId} {v : Variance} {i j : Inference}

/-- A parameter that has a slot is not met. -/
theorem Walks.of_owned {p : GenericParameter} (hp : (s.info member).shape = .parameter p)
    (ho : i.owns p) : Walks s source v member i j := by
  intro hi
  rw [hi member p (.of_parameter hp) hp] at ho
  cases ho

/-- Types that are the same walk nowhere. -/
theorem Walks.of_eq (hj : i.Foreign s member → v ≠ .covariant → j = { i with cost := j.cost })
    (h : i.Foreign s member → v ≠ .covariant → s.NoReference member → source = member) :
    Walks s source v member i j := by
  refine fun hi hv => ⟨hj hi hv, fun href => ?_⟩
  obtain rfl := h hi hv href
  exact ⟨fun _ => rfl, fun _ _ => ⟨source, .refl, .self rfl⟩⟩

/-- A reference is not walked to. -/
theorem Walks.of_reference {e : TypeId} (hmember : (s.info member).shape = .byRefType e)
    (hj : i.Foreign s member → v ≠ .covariant → j = { i with cost := j.cost }) :
    Walks s source v member i j := by
  refine fun hi hv => ⟨hj hi hv, fun href => ?_⟩
  exact absurd hmember (TypeInfo.shape_ne_reference href.not_byRef)

/-- Types of one definition whose arguments walk are the same, and no slot is filled on the way. -/
theorem Walks.of_arguments (hs : s.Formed) {d : TypeId}
    (hsource : s.genericDefinition source = some d) (hmember : s.genericDefinition member = some d)
    (hlen : (s.info source).arguments.length = (s.info member).arguments.length)
    (h : Stepwise (fun pair => Walks s pair.1 .invariant pair.2)
      ((s.info source).arguments.zip (s.info member).arguments) i j) :
    Walks s source v member i j := by
  have hpart : ∀ {pair}, pair ∈ (s.info source).arguments.zip (s.info member).arguments →
      pair.2 ∈ s.parts member := fun hpair =>
    hs.mem_parts_of_mem_arguments (List.of_mem_zip hpair).2
  have hkeep : i.Foreign s member →
      ∀ pair ∈ (s.info source).arguments.zip (s.info member).arguments, ∀ x y,
      Walks s pair.1 .invariant pair.2 x y → x = { i with cost := x.cost } →
      y = { i with cost := y.cost } := fun hi pair hpair x y hxy hx => by
    have hy := (hxy ((hi.part (hpart hpair)).of_cost hx) (by decide)).1
    rw [hx] at hy
    exact hy
  refine .of_eq (fun hi _ => h.keeps (hkeep hi) rfl) fun hi _ href => ?_
  refine hs.eq_of_genericDefinition_eq hsource hmember (eq_of_forall_zip hlen fun pair hpair => ?_)
  obtain ⟨x, y, hx, hxy⟩ := h.exists_kept (hkeep hi) rfl hpair
  exact ((hxy ((hi.part (hpart hpair)).of_cost hx) (by decide)).2 (href.part (hpart hpair))).1 rfl

/-- **Each rule walks.** -/
theorem walks_of_rule (hs : s.Formed) (h : MatchRule s (Walks s) source v member i j) :
    Walks s source v member i j := by
  cases h with
  | foreign | same => exact .of_eq (fun _ _ => rfl) fun _ _ _ => rfl
  | confirmed hp ho | converted hp ho | inverted hp ho | bound hp ho => exact .of_owned hp ho
  | references _ hmember h =>
    have hpart := Store.target_mem_parts (TypeInfo.form_eq_reference_iff.mpr hmember)
    exact .of_reference hmember fun hi _ => (h (hi.part hpart) (by decide)).1
  | reference _ hmember h =>
    have hpart := Store.target_mem_parts (TypeInfo.form_eq_reference_iff.mpr hmember)
    exact .of_reference hmember fun hi hv => (h (hi.part hpart) hv).1
  | @elements _ _ e e' rank _ _ _ hsource hmember h =>
    have hf := TypeInfo.form_eq_array_iff.mpr hsource
    have hf' := TypeInfo.form_eq_array_iff.mpr hmember
    have hpart : e' ∈ s.parts member := Store.element_mem_parts hf'
    refine .of_eq (fun hi _ => (h (hi.part hpart) (by decide)).1) fun hi _ href => ?_
    obtain rfl := ((h (hi.part hpart) (by decide)).2 (href.part hpart)).1 rfl
    refine hs.made_once (hf.trans hf'.symm) ?_
    rw [Store.form, hf]
    trivial
  | arguments _ _ hsource hmember hlen h => exact .of_arguments hs hsource hmember hlen h
  | widenToInterface hinterface hf h =>
    refine fun hi _ => ?_
    obtain ⟨hj, hwalk⟩ := h hi (by decide)
    refine ⟨by rw [hj]; rfl, fun href => ⟨fun h => absurd h (by decide), fun _ _ => ?_⟩⟩
    obtain rfl := (hwalk href).1 rfl
    exact ⟨source, .refl, .interface hinterface hf⟩
  | widenToNullable _ _ hu hvalue hnone h =>
    have hpart := hs.mem_parts_of_mem_arguments (Store.nullableUnderlying_mem hu)
    refine fun hi _ => ?_
    obtain ⟨hj, hwalk⟩ := h (hi.part hpart) (by decide)
    refine ⟨hj, fun href => ⟨fun h => absurd h (by decide), fun _ _ => ?_⟩⟩
    obtain rfl := (hwalk (href.part hpart)).1 rfl
    exact ⟨source, .refl, .nullable hu hvalue hnone⟩
  | widenToBase _ _ hb h =>
    refine fun hi hv => ?_
    obtain ⟨hj, hwalk⟩ := h hi hv
    refine ⟨by rw [hj]; rfl, fun href => ⟨fun h => absurd h (by decide), fun _ hparam => ?_⟩⟩
    obtain ⟨c, hwalk, hc⟩ := (hwalk href).2 rfl hparam
    exact ⟨c, .head hb hwalk, hc⟩
  | narrowFromInterface | narrowFromNullable | narrowFromBase => exact fun _ hv => absurd rfl hv

theorem matchWithin_walks (hs : s.Formed) {depth : Nat}
    (h : matchWithin s depth source v member i = .accepted j) : Walks s source v member i j :=
  matchWithin_induction (fun _ _ _ _ _ => walks_of_rule hs) h

/-- **What is accepted without meeting a slot is climbed to**, and the steps are what is counted. -/
theorem exists_climbs_of_matches (hs : s.WellFormed) {depth : Nat}
    (hparam : (s.info member).isParameter = false) (href : s.NoReference member)
    (hforeign : i.Foreign s member)
    (h : s.matches depth source .contravariant member i = some j) :
    ∃ steps c, s.Climbs member source steps c ∧
      j = { i with cost := i.cost + s.assignCost steps c member } := by
  rw [matches_eq_some_iff] at h
  obtain ⟨c, hwalk, hc⟩ :=
    ((matchWithin_walks hs.toFormed h hforeign (by decide)).2 href).2 rfl hparam
  obtain ⟨steps, c, hclimbs⟩ := Store.Climbs.exists_of_walk hwalk hc
  have hrun := matchWithin_of_climbs hs hparam href hforeign
    (Nat.lt_succ_self (s.height member)) hclimbs
  refine ⟨steps, c, hclimbs, ?_⟩
  rw [← matchWithin_of_le (Nat.le_max_left depth (s.height member + 1 + 1 + steps.length))
    (by rw [h]; rintro ⟨⟩)] at h
  rw [← matchWithin_of_le (Nat.le_max_right depth (s.height member + 1 + 1 + steps.length))
    (by rw [hrun]; rintro ⟨⟩)] at hrun
  exact Attempt.accepted.inj (h.symm.trans hrun)

end Walks

/-! ### Assignability -/

section Assignable

variable {s : Store} (hs : s.WellFormed) (hobject : (s.info Core.object).base = none)
  {source m : TypeId} (hsource : s.Holds source)

include hs hobject hsource

/-- A walk upwards stays in the lineage. -/
theorem Store.mem_lineage_of_walk {c : TypeId}
    (h : Relation.ReflTransGen (fun a b => baseStep s a = some b) source c) :
    c ∈ s.lineage source := by
  induction h with
  | refl => exact List.mem_of_mem_head? (s.head?_lineage source)
  | tail _ hstep ih => exact s.baseStep_mem_lineage hs hobject hsource ih hstep

omit hs hsource in
/-- The lineage is no longer than the store, but for the root behind it. -/
theorem Store.length_lineage_le (t : TypeId) : (s.lineage t).length ≤ s.size + 2 := by
  have hlength : ∀ n met u, (s.ancestorsWithin n met u).length ≤ n + 1 := by
    intro n
    induction n with
    | zero => exact fun _ _ => Nat.le_refl 1
    | succ n ih =>
      intro met u
      rw [ancestorsWithin, List.length_cons]
      split
      · exact Nat.succ_le_succ (Nat.zero_le _)
      · split
        · exact Nat.succ_le_succ (Nat.zero_le _)
        · exact Nat.succ_le_succ (ih _ _)
  have hancestors : (s.ancestors t).length ≤ s.size + 1 := hlength s.size [] t
  rw [lineage, List.length_append]
  split
  · rw [ancestors_of_base_eq_none hobject]
    exact Nat.succ_le_succ hancestors
  · exact Nat.le_succ_of_le hancestors

omit hs hobject hsource in
/-- Of types some of which reach a member there is a first one. -/
theorem Store.exists_first_reaching {types : List TypeId} (h : ∃ c ∈ types, s.Reaches c m) :
    ∃ before c after, types = before ++ c :: after ∧ (∀ b ∈ before, ¬ s.Reaches b m) ∧
      s.Reaches c m := by
  classical
  obtain ⟨c, hmem, hc⟩ := h
  have hfind : (types.find? fun t => s.Reaches t m).isSome :=
    List.find?_isSome.mpr ⟨c, hmem, decide_eq_true hc⟩
  obtain ⟨first, hfirst⟩ := Option.isSome_iff_exists.mp hfind
  obtain ⟨hreaches, before, after, hsplit, hbefore⟩ := List.find?_eq_some_iff_append.mp hfirst
  exact ⟨before, first, after, hsplit, fun b hb hreach => by simpa [hreach] using hbefore b hb,
    of_decide_eq_true hreaches⟩

omit hsource in
/-- **What is accepted and what is counted**, at every depth that leaves room for the walk. -/
theorem matchWithin_of_lineage (hm : s.Holds m) (hparam : (s.info m).isParameter = false)
    (href : s.NoReference m) {depth : Nat} (hdepth : 2 * s.size + 4 ≤ depth) (cost : MatchCost)
    {before : List TypeId} {c : TypeId} {after : List TypeId}
    (hlineage : s.lineage source = before ++ c :: after)
    (hbefore : ∀ b ∈ before, ¬ s.Reaches b m) (hc : s.Reaches c m) :
    matchWithin s depth source .contravariant m { cost := cost } =
      .accepted { cost := cost + s.assignCost (before ++ [c]).tail c m } := by
  have hchain := s.isChain_lineage hobject source
  have hhead := s.head?_lineage source
  have hlength := s.length_lineage_le hobject source
  rw [hlineage] at hchain hhead hlength
  have hcut : before ++ c :: after = (before ++ [c]) ++ after := by
    rw [List.append_assoc, List.singleton_append]
  rw [hcut] at hchain hhead
  have hhead' : (before ++ [c]).head? = some source := by
    rw [← hhead, List.head?_append]
    cases before <;> rfl
  have hclimbs := Store.Climbs.of_isChain (List.isChain_append.mp hchain).1 hhead' hbefore hc
  have hrun := matchWithin_of_climbs hs hparam href (.of_empty s cost m)
    (Nat.lt_succ_self (s.height m)) hclimbs
  have hheight := s.height_le m
  have hroom : (s.height m).succ + 1 + (before ++ [c]).tail.length ≤ depth := by
    rw [List.length_append, List.length_cons] at hlength
    rw [List.length_tail, List.length_append, List.length_singleton]
    have : m.index < s.size := hm
    omega
  rw [matchWithin_of_le hroom (by rw [hrun]; rintro ⟨⟩), hrun]

end Assignable

/-- **Assignability without slots.** A type flows into a member that is no parameter and has no
references among its parts exactly when a type of its lineage is the member, has it among its
interfaces, or is what it takes besides null. On the way the steps to bases up to the first such
type are counted, and one step to an interface if that type reaches the member through one; nothing
is bound. -/
theorem assignable_iff {allowed : Store → Operation → Prop} {s : Store}
    (hreach : s.Reachable allowed) (hobject : (s.info Core.object).base = none)
    {source m : TypeId} (hsource : s.Holds source) (hm : s.Holds m)
    (hparam : (s.info m).isParameter = false) (href : s.NoReference m) (cost : MatchCost) :
    (∀ depth, 2 * s.size + 4 ≤ depth →
      ((∃ j, s.matches depth source .contravariant m { cost := cost } = some j) ↔
        ∃ c ∈ s.lineage source, s.Reaches c m)) ∧
    ∀ depth j, s.matches depth source .contravariant m { cost := cost } = some j →
      ∃ before c after, s.lineage source = before ++ c :: after ∧
        (∀ b ∈ before, ¬ s.Reaches b m) ∧ s.Reaches c m ∧
        j = { cost := cost +
          { totalTypes := before.length
            genericTypes := (before ++ [c]).tail.countP fun t => (s.info t).isGeneric
            totalInterfaces := if s.ReachesByInterface c m then 1 else 0
            genericInterfaces :=
              if s.ReachesByInterface c m ∧ (s.info m).isGeneric then 1 else 0 } } := by
  have hs := hreach.wellFormed
  have hsound : ∀ {depth j}, s.matches depth source .contravariant m { cost := cost } = some j →
      ∃ c ∈ s.lineage source, s.Reaches c m := by
    intro depth j hj
    obtain ⟨c, hwalk, hc⟩ := ((matchWithin_walks hs.toFormed (matches_eq_some_iff.mp hj)
      (.of_empty s cost m) (by decide)).2 href).2 rfl hparam
    exact ⟨c, s.mem_lineage_of_walk hs hobject hsource hwalk, hc⟩
  refine ⟨fun depth hdepth => ⟨fun ⟨j, hj⟩ => hsound hj, fun h => ?_⟩, fun depth j hj => ?_⟩
  · obtain ⟨before, c, after, hlineage, hbefore, hc⟩ := s.exists_first_reaching h
    exact ⟨_, matches_eq_some_iff.mpr (matchWithin_of_lineage hs hobject hm hparam href
      hdepth cost hlineage hbefore hc)⟩
  · obtain ⟨before, c, after, hlineage, hbefore, hc⟩ := s.exists_first_reaching (hsound hj)
    refine ⟨before, c, after, hlineage, hbefore, hc, ?_⟩
    have hrun := matchWithin_of_lineage hs hobject hm hparam href
      (Nat.le_add_left (2 * s.size + 4) depth) cost hlineage hbefore hc
    rw [matches_eq_some_iff] at hj
    rw [matchWithin_of_le (Nat.le_add_right depth _) (by rw [hj]; rintro ⟨⟩), hj] at hrun
    rw [Attempt.accepted.inj hrun]
    simp [Store.assignCost, MatchCost.one]

/-- A text is a sequence of characters: one step to an interface, which is constructed. -/
theorem assignable_iff_string :
    ∃ characters, Store.initial.display characters = "IEnumerable<Char>" ∧
      Store.initial.lineage Core.string = [Core.string, Core.object] ∧
      (∃ j, Store.initial.matches 58 Core.string .contravariant characters {} = some j) ∧
      ∀ j, Store.initial.matches 58 Core.string .contravariant characters {} = some j →
        j = { cost := { totalInterfaces := 1, genericInterfaces := 1 } } := by
  have hholds : ∀ i < 27, Store.initial.Holds ⟨i⟩ := fun i hi => by
    rw [Store.Holds, Store.size_initial]
    exact hi
  have href : Store.initial.NoReference ⟨24⟩ := by
    refine .intro (by decide +kernel) fun u hu => ?_
    have hpart : Store.initial.parts ⟨24⟩ = [Core.char] := by decide +kernel
    obtain rfl := List.mem_singleton.mp (hpart ▸ hu)
    have hnone : Store.initial.parts Core.char = [] := by decide +kernel
    exact .intro (by decide +kernel) fun v hv => absurd (hnone ▸ hv) List.not_mem_nil
  have hreaches : Store.initial.Reaches Core.string ⟨24⟩ :=
    .interface (by decide +kernel) (by decide +kernel)
  have hlineage : Store.initial.lineage Core.string = [Core.string, Core.object] := by
    decide +kernel
  have hreach : Store.initial.Reachable fun _ _ => True := .initial
  have h := assignable_iff hreach (by decide +kernel)
    (hholds Core.string.index (by decide)) (hholds 24 (by decide)) (by decide +kernel) href {}
  refine ⟨⟨24⟩, by decide +kernel, hlineage, ?_, fun j hj => ?_⟩
  · refine (h.1 58 (by rw [Store.size_initial])).mpr ⟨Core.string, ?_, hreaches⟩
    rw [hlineage]
    exact List.mem_cons_self
  · obtain ⟨before, c, after, hsplit, hbefore, -, rfl⟩ := h.2 58 j hj
    rw [hlineage] at hsplit
    -- The text itself has the interface, so no type stands before the first that does.
    cases before with
    | cons b before =>
      obtain ⟨rfl, -⟩ := List.cons.inj hsplit
      exact absurd hreaches (hbefore _ List.mem_cons_self)
    | nil =>
      obtain ⟨rfl, -⟩ := List.cons.inj hsplit
      decide +kernel

end CallSite
