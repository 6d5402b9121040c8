import CallSite.Match.Matcher
import CallSite.Proofs.Type.Form

/-!
# The rules of a match

What an accepted match can be, said once: `CallSite.MatchRule` has a rule for each way in which a
source matches a member, and `CallSite.matchWithin_induction` is the induction over the rules that
led to an accepted match. Every property of accepted matches is proved by one case for each rule,
and nothing else opens the definition of a match.
-/

namespace CallSite

/-! ### Item by item -/

/-- **From state to state, item by item**: each item of the list takes one step. -/
inductive Stepwise {α β : Type} (step : β → α → α → Prop) : List β → α → α → Prop
  /-- Without items the state stays. -/
  | nil {a : α} : Stepwise step [] a a
  /-- The first item steps first. -/
  | cons {b : β} {items : List β} {a a' a'' : α} :
      step b a a' → Stepwise step items a' a'' → Stepwise step (b :: items) a a''

namespace Stepwise

variable {α β : Type} {step step' : β → α → α → Prop} {items : List β} {a a' : α}

theorem mono (h : Stepwise step items a a')
    (imp : ∀ b ∈ items, ∀ x y, step b x y → step' b x y) : Stepwise step' items a a' := by
  induction h with
  | nil => exact .nil
  | cons hb _ ih =>
    exact .cons (imp _ List.mem_cons_self _ _ hb)
      (ih fun b hmem => imp b (List.mem_cons_of_mem _ hmem))

/-- What every step keeps is kept by all of them. -/
theorem keeps {P : α → Prop} (h : Stepwise step items a a')
    (imp : ∀ b ∈ items, ∀ x y, step b x y → P x → P y) (ha : P a) : P a' := by
  induction h with
  | nil => exact ha
  | cons hb _ ih =>
    exact ih (fun b hmem => imp b (List.mem_cons_of_mem _ hmem))
      (imp _ List.mem_cons_self _ _ hb ha)

/-- **The step of one item**, with the steps before it and behind it. -/
theorem exists_step (h : Stepwise step items a a') {k : Nat} {b : β} (hb : items[k]? = some b) :
    ∃ x y, Stepwise step (items.take k) a x ∧ step b x y ∧
      Stepwise step (items.drop (k + 1)) y a' := by
  induction h generalizing k with
  | nil => cases hb
  | @cons _ _ a x _ hstep hrest ih =>
    cases k with
    | zero =>
      obtain rfl := Option.some.inj hb
      exact ⟨a, x, .nil, hstep, hrest⟩
    | succ k =>
      obtain ⟨y, z, hbefore, hb, hafter⟩ := ih hb
      exact ⟨y, z, .cons hstep hbefore, hb, hafter⟩

theorem foldlM_eq_some_iff {f : α → β → Option α} :
    items.foldlM f a = some a' ↔ Stepwise (fun b x y => f x b = some y) items a a' := by
  induction items generalizing a with
  | nil =>
    constructor
    · intro h
      obtain rfl : a = a' := Option.some.inj h
      exact .nil
    · rintro ⟨⟩
      rfl
  | cons b items ih =>
    rw [List.foldlM_cons, Option.bind_eq_bind, Option.bind_eq_some_iff]
    constructor
    · rintro ⟨x, hx, h⟩
      exact .cons hx (ih.mp h)
    · rintro (_ | ⟨hx, h⟩)
      exact ⟨_, hx, ih.mpr h⟩

end Stepwise

namespace Attempt

variable {α β : Type}

theorem all_eq_accepted_iff {step : β → α → Attempt α} {items : List β} {a a' : α} :
    all step items a = .accepted a' ↔
      Stepwise (fun b x y => step b x = .accepted y) items a a' := by
  induction items generalizing a with
  | nil =>
    constructor
    · intro h
      obtain rfl : a = a' := by simpa [all] using h
      exact .nil
    · rintro ⟨⟩
      rfl
  | cons b items ih =>
    rw [all, bind_eq_accepted_iff]
    constructor
    · rintro ⟨x, hx, h⟩
      exact .cons hx (ih.mp h)
    · rintro (_ | ⟨hx, h⟩)
      exact ⟨_, hx, ih.mpr h⟩

theorem exists_of_any_eq_accepted {step : β → α → Attempt α} {items : List β} {a a' : α}
    (h : any step items a = .accepted a') : ∃ b ∈ items, step b a = .accepted a' := by
  induction items with
  | nil => simp [any] at h
  | cons b items ih =>
    rcases orElse_eq_accepted_iff.mp h with hb | ⟨-, hrest⟩
    · exact ⟨b, List.mem_cons_self, hb⟩
    · obtain ⟨b', hmem, hb'⟩ := ih hrest
      exact ⟨b', List.mem_cons_of_mem _ hmem, hb'⟩

end Attempt

/-! ### The rules -/

/-- What a match may be: a source, a variance, a member, and the inference before and after. -/
abbrev MatchRelation :=
  TypeId → Variance → TypeId → Inference → Inference → Prop

/-- **A type has a constraint**, by the matches that `M` admits. -/
inductive ConstraintRule (s : Store) (M : MatchRelation) (source : TypeId) :
    TypeId → Inference → Inference → Prop
  /-- It flows into an interface. -/
  | interface {c : TypeId} {i j : Inference} :
      (s.info c).isInterface → M source .contravariant c i j → ConstraintRule s M source c i j
  /-- It or one of its bases is any other type. -/
  | ancestor {c a : TypeId} {i j : Inference} :
      (s.info c).isInterface = false → a ∈ s.ancestors source → M a .invariant c i j →
        ConstraintRule s M source c i j

/-- **A source matches a member**, by a rule whose premises are matches that `M` admits. -/
inductive MatchRule (s : Store) (M : MatchRelation) : MatchRelation
  /-- A parameter without a slot matches itself. -/
  | foreign {t : TypeId} {v : Variance} {p : GenericParameter} {i : Inference} :
      (s.info t).shape = .parameter p → i.owns p = false → MatchRule s M t v t i i
  /-- The source is what is bound. -/
  | confirmed {source member : TypeId} {v : Variance} {p : GenericParameter} {i : Inference} :
      (s.info member).shape = .parameter p → i.owns p → i.bound? p = some source →
        MatchRule s M source v member i i
  /-- The source matches what is bound. -/
  | converted {source member bound : TypeId} {v : Variance} {p : GenericParameter}
      {i j : Inference} :
      (s.info member).shape = .parameter p → i.owns p → i.bound? p = some bound →
        bound ≠ source → M source v bound i j → MatchRule s M source v member i j
  /-- The source matches what is bound in the opposite direction. -/
  | inverted {source member bound : TypeId} {v : Variance} {p : GenericParameter}
      {i j : Inference} :
      (s.info member).shape = .parameter p → i.owns p → i.bound? p = some bound →
        bound ≠ source → M source v.inverse bound i j → MatchRule s M source v member i j
  /-- An empty slot is bound to a source that has the constraints of the parameter. -/
  | bound {source member : TypeId} {v : Variance} {p : GenericParameter} {i j : Inference} :
      (s.info member).shape = .parameter p → i.owns p → i.bound? p = none →
        satisfiesFlags s source p.flags →
        Stepwise (ConstraintRule s M source) p.constraints (i.put p source) j →
        MatchRule s M source v member i
          (Inference.mapCost (MatchCost.addConstraints s p) { j with cost := i.cost })
  /-- A type that is no parameter matches itself. -/
  | same {t : TypeId} {v : Variance} {i : Inference} :
      (s.info t).isParameter = false → MatchRule s M t v t i i
  /-- References match where what they refer to does. -/
  | references {source member e e' : TypeId} {v : Variance} {i j : Inference} :
      (s.info source).shape = .byRefType e → (s.info member).shape = .byRefType e' →
        M e .invariant e' i j → MatchRule s M source v member i j
  /-- A plain value is passed where a reference is expected. -/
  | reference {source member e : TypeId} {v : Variance} {i j : Inference} :
      (s.info source).isByRef = false → (s.info member).shape = .byRefType e →
        M source v e i j → MatchRule s M source v member i j
  /-- Arrays match where their elements do. -/
  | elements {source member e e' : TypeId} {rank : Nat} {v : Variance} {i j : Inference} :
      (s.info source).shape = .arrayType e rank → (s.info member).shape = .arrayType e' rank →
        M e .invariant e' i j → MatchRule s M source v member i j
  /-- Types of one definition match where their arguments do. -/
  | arguments {source member d : TypeId} {v : Variance} {i j : Inference} :
      (s.info member).isParameter = false → (s.info member).isByRef = false →
        s.genericDefinition source = some d → s.genericDefinition member = some d →
        (s.info source).arguments.length = (s.info member).arguments.length →
        Stepwise (fun pair => M pair.1 .invariant pair.2)
          ((s.info source).arguments.zip (s.info member).arguments) i j →
        MatchRule s M source v member i j
  /-- An interface of the source is the member. -/
  | widenToInterface {source member f : TypeId} {i j : Inference} :
      (s.info member).isInterface → f ∈ s.allInterfaces source → M f .invariant member i j →
        MatchRule s M source .contravariant member i
          (Inference.mapCost (MatchCost.addInterfaceStep s f) j)
  /-- The member takes the values of the source and null. -/
  | widenToNullable {source member u : TypeId} {i j : Inference} :
      (s.info member).isParameter = false → (s.info member).isByRef = false →
        s.nullableUnderlying member = some u → (s.info source).isValueType →
        s.nullableUnderlying source = none → M source .invariant u i j →
        MatchRule s M source .contravariant member i j
  /-- The base of the source flows into the member. -/
  | widenToBase {source member b : TypeId} {i j : Inference} :
      (s.info member).isParameter = false → (s.info member).isByRef = false →
        baseStep s source = some b → M b .contravariant member i j →
        MatchRule s M source .contravariant member i
          (Inference.mapCost (MatchCost.addBaseStep s b) j)
  /-- An interface of the member is the source. -/
  | narrowFromInterface {source member f : TypeId} {i j : Inference} :
      (s.info member).isParameter = false → (s.info member).isByRef = false →
        (s.info source).isInterface → f ∈ s.allInterfaces member → M source .invariant f i j →
        MatchRule s M source .covariant member i
          (Inference.mapCost (MatchCost.addInterfaceStep s f) j)
  /-- The source takes the values of the member and null. -/
  | narrowFromNullable {source member u : TypeId} {i j : Inference} :
      s.nullableUnderlying source = some u → (s.info member).isValueType →
        s.nullableUnderlying member = none → M u .invariant member i j →
        MatchRule s M source .covariant member i j
  /-- The base of the member flows into the source. -/
  | narrowFromBase {source member b : TypeId} {i j : Inference} :
      (s.info member).isParameter = false → (s.info member).isByRef = false →
        baseStep s member = some b → M source .covariant b i j →
        MatchRule s M source .covariant member i
          (Inference.mapCost (MatchCost.addBaseStep s b) j)

/-- **A source matches a bare parameter**, by the rules for slots alone. -/
inductive ParameterRule (s : Store) (M : MatchRelation) (p : GenericParameter) (source : TypeId)
    (v : Variance) (member : TypeId) (i : Inference) : Inference → Prop
  /-- A parameter without a slot matches itself. -/
  | foreign : source = member → i.owns p = false → ParameterRule s M p source v member i i
  /-- The source is what is bound. -/
  | confirmed : i.owns p → i.bound? p = some source → ParameterRule s M p source v member i i
  /-- The source matches what is bound, in the same direction or in the opposite one. -/
  | converted {bound : TypeId} {w : Variance} {j : Inference} : i.owns p → i.bound? p = some bound →
      w = v ∨ w = v.inverse → M source w bound i j → ParameterRule s M p source v member i j
  /-- An empty slot is bound to a source that has the constraints of the parameter. -/
  | bound {j : Inference} : i.owns p → i.bound? p = none →
      Stepwise (ConstraintRule s M source) p.constraints (i.put p source) j →
      ParameterRule s M p source v member i
        (Inference.mapCost (MatchCost.addConstraints s p) { j with cost := i.cost })

/-- **The rules for a bare parameter** are those for slots. -/
theorem MatchRule.of_parameter {s : Store} {M : MatchRelation} {source member : TypeId}
    {v : Variance} {i j : Inference} (h : MatchRule s M source v member i j) {p : GenericParameter}
    (hp : (s.info member).shape = .parameter p) : ParameterRule s M p source v member i j := by
  have heq : ∀ {q}, (s.info member).shape = .parameter q → q = p := fun hq =>
    Shape.parameter.inj (hq.symm.trans hp)
  cases h with
  | foreign hq ho =>
    obtain rfl := heq hq
    exact .foreign rfl ho
  | confirmed hq ho hb =>
    obtain rfl := heq hq
    exact .confirmed ho hb
  | converted hq ho hb _ h =>
    obtain rfl := heq hq
    exact .converted ho hb (.inl rfl) h
  | inverted hq ho hb _ h =>
    obtain rfl := heq hq
    exact .converted ho hb (.inr rfl) h
  | bound hq ho hb _ h =>
    obtain rfl := heq hq
    exact .bound ho hb h
  -- All other rules are for members that are no parameters.
  | same hnot | arguments hnot | widenToNullable hnot | widenToBase hnot | narrowFromInterface hnot
  | narrowFromBase hnot => exact absurd hp (TypeInfo.shape_ne_parameter hnot)
  | references _ hm | reference _ hm | elements _ hm =>
    exact absurd (hp.symm.trans hm) Shape.noConfusion
  | widenToInterface hm =>
    exact absurd (hp.symm.trans (TypeInfo.isInterface_iff.mp hm)) Shape.noConfusion
  | narrowFromNullable _ hm =>
    exact absurd (hp.symm.trans (TypeInfo.isValueType_iff.mp hm)) Shape.noConfusion

/-! ### Every accepted match follows a rule -/

section Inversion

variable {s : Store} {recurse : Matcher} {source member : TypeId} {v : Variance} {i j : Inference}

/-- What the matches of the level below accept. -/
def Matcher.Accepts (recurse : Matcher) : MatchRelation :=
  fun source v member i j => recurse source v member i = .accepted j

theorem constraintRule_of_accepted {c : TypeId}
    (h : matchConstraint s recurse source c i = .accepted j) :
    ConstraintRule s recurse.Accepts source c i j := by
  unfold matchConstraint at h
  split at h
  case isTrue hc => exact .interface hc h
  case isFalse hc =>
    obtain ⟨a, hmem, ha⟩ := Attempt.exists_of_any_eq_accepted h
    exact .ancestor (Bool.eq_false_iff.mpr hc) hmem ha

theorem matchRule_of_parameter {p : GenericParameter}
    (hp : (s.info member).shape = .parameter p)
    (h : matchParameter s recurse source v member p i = .accepted j) :
    MatchRule s recurse.Accepts source v member i j := by
  unfold matchParameter at h
  split at h
  case isTrue howns =>
    split at h
    case h_1 bound hbound =>
      split at h
      case isTrue heq =>
        cases h
        exact .confirmed hp howns (heq ▸ hbound)
      case isFalse hne =>
        rcases Attempt.orElse_eq_accepted_iff.mp h with h | ⟨-, h⟩
        · exact .converted hp howns hbound hne h
        · exact .inverted hp howns hbound hne h
    case h_2 hnone =>
      split at h
      case isTrue hflags =>
        obtain ⟨j₁, hj₁, rfl⟩ := Attempt.map_eq_accepted_iff.mp h
        obtain ⟨j₂, hj₂, rfl⟩ := Attempt.map_eq_accepted_iff.mp hj₁
        rw [Inference.cost_put]
        refine .bound hp howns hnone hflags ?_
        exact (Attempt.all_eq_accepted_iff.mp hj₂).mono fun _ _ _ _ hc =>
          constraintRule_of_accepted hc
      case isFalse => cases h
  case isFalse howns =>
    unfold Attempt.guard at h
    split at h
    case isTrue heq =>
      cases h
      obtain rfl := of_decide_eq_true heq
      exact .foreign hp (Bool.eq_false_iff.mpr howns)
    case isFalse => cases h

theorem matchRule_of_elements (h : matchElements s recurse source member i = .accepted j) :
    MatchRule s recurse.Accepts source v member i j := by
  unfold matchElements at h
  split at h
  case h_1 e rank e' rank' hs hm =>
    split at h
    · subst rank'
      exact .elements hs hm h
    · cases h
  case h_2 => cases h

theorem matchRule_of_arguments (hp : (s.info member).isParameter = false)
    (hr : (s.info member).isByRef = false)
    (h : matchArguments s recurse source member i = .accepted j) :
    MatchRule s recurse.Accepts source v member i j := by
  unfold matchArguments at h
  split at h
  case h_1 d d' hs hm =>
    dsimp only at h
    split at h
    case isTrue heq =>
      obtain ⟨rfl, hlen⟩ := heq
      exact .arguments hp hr hs hm hlen (Attempt.all_eq_accepted_iff.mp h)
    case isFalse => cases h
  case h_2 => cases h

theorem matchRule_of_widen (hp : (s.info member).isParameter = false)
    (hr : (s.info member).isByRef = false) (h : widen s recurse source member i = .accepted j) :
    MatchRule s recurse.Accepts source .contravariant member i j := by
  rcases Attempt.orElse_eq_accepted_iff.mp h with h | ⟨-, h⟩
  · unfold widenToInterface at h
    split at h
    · obtain ⟨f, hf, hj⟩ := Attempt.exists_of_any_eq_accepted h
      obtain ⟨j', hj', rfl⟩ := Attempt.map_eq_accepted_iff.mp hj
      exact .widenToInterface ‹_› hf hj'
    · cases h
  rcases Attempt.orElse_eq_accepted_iff.mp h with h | ⟨-, h⟩
  · unfold widenToNullable at h
    split at h
    case h_1 u hu =>
      split at h
      case isTrue hv =>
        simp only [Bool.and_eq_true, Option.isNone_iff_eq_none] at hv
        exact .widenToNullable hp hr hu hv.1 hv.2 h
      case isFalse => cases h
    case h_2 => cases h
  · unfold widenToBase at h
    split at h
    case h_1 b hb =>
      obtain ⟨j', hj', rfl⟩ := Attempt.map_eq_accepted_iff.mp h
      exact .widenToBase hp hr hb hj'
    case h_2 => cases h

theorem matchRule_of_narrow (hp : (s.info member).isParameter = false)
    (hr : (s.info member).isByRef = false) (h : narrow s recurse source member i = .accepted j) :
    MatchRule s recurse.Accepts source .covariant member i j := by
  rcases Attempt.orElse_eq_accepted_iff.mp h with h | ⟨-, h⟩
  · unfold narrowFromInterface at h
    split at h
    · obtain ⟨f, hf, hj⟩ := Attempt.exists_of_any_eq_accepted h
      obtain ⟨j', hj', rfl⟩ := Attempt.map_eq_accepted_iff.mp hj
      exact .narrowFromInterface hp hr ‹_› hf hj'
    · cases h
  rcases Attempt.orElse_eq_accepted_iff.mp h with h | ⟨-, h⟩
  · unfold narrowFromNullable at h
    split at h
    case h_1 u hu =>
      split at h
      case isTrue hv =>
        simp only [Bool.and_eq_true, Option.isNone_iff_eq_none] at hv
        exact .narrowFromNullable hu hv.1 hv.2 h
      case isFalse => cases h
    case h_2 => cases h
  · unfold narrowFromBase at h
    split at h
    case h_1 b hb =>
      obtain ⟨j', hj', rfl⟩ := Attempt.map_eq_accepted_iff.mp h
      exact .narrowFromBase hp hr hb hj'
    case h_2 => cases h

/-- **One level of an accepted match follows a rule**, with accepted matches of the level below as
its premises. -/
theorem matchRule_of_matchStep (h : matchStep s recurse source v member i = .accepted j) :
    MatchRule s recurse.Accepts source v member i j := by
  unfold matchStep at h
  split at h
  case h_1 p hp => exact matchRule_of_parameter hp h
  case h_2 e he =>
    split at h
    · cases h
      subst source
      exact .same (by simp [TypeInfo.isParameter, he])
    split at h
    case h_1 e' he' => exact .references he' he h
    case h_2 hne => exact .reference (TypeInfo.isByRef_eq_false_iff.mpr hne) he h
  case h_3 hparam href =>
    have hp := TypeInfo.isParameter_eq_false_iff.mpr hparam
    have hr := TypeInfo.isByRef_eq_false_iff.mpr href
    split at h
    · cases h
      subst source
      exact .same hp
    rcases Attempt.orElse_eq_accepted_iff.mp h with h | ⟨-, h⟩
    · exact matchRule_of_elements h
    rcases Attempt.orElse_eq_accepted_iff.mp h with h | ⟨-, h⟩
    · exact matchRule_of_arguments hp hr h
    cases v with
    | invariant => cases h
    | contravariant => exact matchRule_of_widen hp hr h
    | covariant => exact matchRule_of_narrow hp hr h

end Inversion

/-! ### Induction over the rules -/

theorem ConstraintRule.mono {s : Store} {M M' : MatchRelation} {source c : TypeId}
    {i j : Inference} (imp : ∀ source v member i j, M source v member i j → M' source v member i j)
    (h : ConstraintRule s M source c i j) : ConstraintRule s M' source c i j := by
  cases h with
  | interface hc h => exact .interface hc (imp _ _ _ _ _ h)
  | ancestor hc ha h => exact .ancestor hc ha (imp _ _ _ _ _ h)

theorem MatchRule.mono {s : Store} {M M' : MatchRelation} {source member : TypeId} {v : Variance}
    {i j : Inference} (imp : ∀ source v member i j, M source v member i j → M' source v member i j)
    (h : MatchRule s M source v member i j) : MatchRule s M' source v member i j := by
  cases h with
  | foreign hp ho => exact .foreign hp ho
  | confirmed hp ho hb => exact .confirmed hp ho hb
  | converted hp ho hb hne h => exact .converted hp ho hb hne (imp _ _ _ _ _ h)
  | inverted hp ho hb hne h => exact .inverted hp ho hb hne (imp _ _ _ _ _ h)
  | bound hp ho hb hf h =>
    exact .bound hp ho hb hf (h.mono fun _ _ _ _ hc => hc.mono imp)
  | same hp => exact .same hp
  | references hs hm h => exact .references hs hm (imp _ _ _ _ _ h)
  | reference hs hm h => exact .reference hs hm (imp _ _ _ _ _ h)
  | elements hs hm h => exact .elements hs hm (imp _ _ _ _ _ h)
  | arguments hp hr hs hm hl h =>
    exact .arguments hp hr hs hm hl (h.mono fun _ _ _ _ hc => imp _ _ _ _ _ hc)
  | widenToInterface hm hf h => exact .widenToInterface hm hf (imp _ _ _ _ _ h)
  | widenToNullable hp hr hu hv hn h => exact .widenToNullable hp hr hu hv hn (imp _ _ _ _ _ h)
  | widenToBase hp hr hb h => exact .widenToBase hp hr hb (imp _ _ _ _ _ h)
  | narrowFromInterface hp hr hs hf h =>
    exact .narrowFromInterface hp hr hs hf (imp _ _ _ _ _ h)
  | narrowFromNullable hu hv hn h => exact .narrowFromNullable hu hv hn (imp _ _ _ _ _ h)
  | narrowFromBase hp hr hb h => exact .narrowFromBase hp hr hb (imp _ _ _ _ _ h)

/-- **Induction over the rules** that led to an accepted match. -/
theorem matchWithin_induction {s : Store} {M : MatchRelation}
    (rule : ∀ source v member i j, MatchRule s M source v member i j → M source v member i j)
    {depth : Nat} {source member : TypeId} {v : Variance} {i j : Inference}
    (h : matchWithin s depth source v member i = .accepted j) : M source v member i j := by
  induction depth generalizing source v member i j with
  | zero => cases h
  | succ depth ih =>
    exact rule _ _ _ _ _ ((matchRule_of_matchStep h).mono fun _ _ _ _ _ h' => ih h')

end CallSite
