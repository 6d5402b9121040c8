import CallSite.Proofs.Match.Inherit
import CallSite.Proofs.Type.Stable

/-!
# Matching in a store that has grown

A match reads the rows of its source and its member and of what it steps to from there, and all of
these are held. So the types that were added since do not matter to it: the match ends as it would
have ended before (`CallSite.matchWithin_of_extends`).
-/

namespace CallSite

/-! ### Attempts that are the same -/

/-- **Two attempts are the same**, and what they accept has a property. -/
def Attempt.Same {α : Type} (P : α → Prop) (a b : Attempt α) : Prop :=
  b = a ∧ ∀ x, a = .accepted x → P x

namespace Attempt.Same

variable {α β : Type} {P Q : α → Prop} {a b : Attempt α}

theorem refused : Same P .refused .refused :=
  ⟨rfl, by rintro _ ⟨⟩⟩

theorem accepted {x : α} (h : P x) : Same P (.accepted x) (.accepted x) :=
  ⟨rfl, by rintro _ ⟨⟩; exact h⟩

theorem guard {condition : Bool} {x : α} (h : P x) :
    Same P (.guard condition x) (.guard condition x) := by
  unfold Attempt.guard
  split
  · exact .accepted h
  · exact .refused

theorem bind {f g : α → Attempt α} (h : Same P a b) (hfg : ∀ x, P x → Same Q (f x) (g x)) :
    Same Q (a.bind f) (b.bind g) := by
  obtain ⟨rfl, h⟩ := h
  cases b with
  | accepted x => exact hfg x (h x rfl)
  | refused => exact .refused
  | unfinished => exact ⟨rfl, by rintro _ ⟨⟩⟩

theorem map {f : α → α} (h : Same P a b) (hf : ∀ x, P x → Q (f x)) :
    Same Q (a.map f) (b.map f) :=
  h.bind fun x hx => .accepted (hf x hx)

theorem orElse {f g : Unit → Attempt α} (h : Same P a b) (hfg : Same P (f ()) (g ())) :
    Same P (a.orElse f) (b.orElse g) := by
  obtain ⟨rfl, h⟩ := h
  cases b with
  | accepted x => exact .accepted (h x rfl)
  | refused => exact hfg
  | unfinished => exact ⟨rfl, by rintro _ ⟨⟩⟩

theorem all {step step' : β → α → Attempt α} {items : List β}
    (h : ∀ b ∈ items, ∀ x, P x → Same P (step b x) (step' b x)) {x : α} (hx : P x) :
    Same P (Attempt.all step items x) (Attempt.all step' items x) := by
  induction items generalizing x with
  | nil => exact .accepted hx
  | cons b items ih =>
    exact (h b List.mem_cons_self x hx).bind fun _ hy =>
      ih (fun b' hb' => h b' (List.mem_cons_of_mem _ hb')) hy

theorem any {step step' : β → α → Attempt α} {items : List β} {x : α}
    (h : ∀ b ∈ items, Same P (step b x) (step' b x)) :
    Same P (Attempt.any step items x) (Attempt.any step' items x) := by
  induction items with
  | nil => exact .refused
  | cons b items ih =>
    exact (h b List.mem_cons_self).orElse (ih fun b' hb' => h b' (List.mem_cons_of_mem _ hb'))

end Attempt.Same

/-! ### Held types are handed on -/

namespace Store

variable {s : Store}

/-- The elements, targets and arguments of a held type are held, and so is what stands above it. -/
theorem WellFormed.inherited_holds (hs : s.WellFormed) : s.Inherited s.Holds where
  above hu _ := hs.holds_above hu
  root _ _ := Nat.lt_trans (by decide) hs.core_lt_size
  element ht _ := hs.holds_part (element_mem_parts (TypeInfo.form_eq_array_iff.mpr ht))
  target ht _ := hs.holds_part (target_mem_parts (TypeInfo.form_eq_reference_iff.mpr ht))
  argument ha _ := hs.holds_part (hs.mem_parts_of_mem_arguments ha)

end Store

/-! ### One level of a match -/

section Level

variable {s s' : Store} {r r' : Matcher}

open Attempt

/-- **Two ways to match are the same** on held types, while everything that is bound is held. -/
def Matcher.SameOn (s : Store) (r r' : Matcher) : Prop :=
  ∀ source v member i, s.Holds source → s.Holds member → i.All s.Holds →
    Same (fun j : Inference => j.All s.Holds) (r source v member i) (r' source v member i)

variable (hs : s.WellFormed) (hext : s.Extends s') (hr : r.SameOn s r')
variable {source member : TypeId} {i : Inference} (hsource : s.Holds source)
  (hmember : s.Holds member) (hi : i.All s.Holds)

theorem satisfiesFlags_of_extends (hext : s.Extends s') (hsource : s.Holds source) (flags : Flags) :
    satisfiesFlags s' source flags = satisfiesFlags s source flags := by
  rw [satisfiesFlags, satisfiesFlags, hext.info_eq hsource,
    Store.nullableUnderlying_of_extends hext hsource]

theorem baseStep_of_extends (hext : s.Extends s') (hsource : s.Holds source) :
    baseStep s' source = baseStep s source := by
  rw [baseStep, baseStep, hext.info_eq hsource]

theorem addBaseStep_of_extends (hext : s.Extends s') {b : TypeId} (hb : s.Holds b) :
    MatchCost.addBaseStep s' b = MatchCost.addBaseStep s b := by
  funext cost
  rw [MatchCost.addBaseStep, MatchCost.addBaseStep, hext.info_eq hb]

theorem addInterfaceStep_of_extends (hext : s.Extends s') {f : TypeId} (hf : s.Holds f) :
    MatchCost.addInterfaceStep s' f = MatchCost.addInterfaceStep s f := by
  funext cost
  rw [MatchCost.addInterfaceStep, MatchCost.addInterfaceStep, hext.info_eq hf]

theorem addConstraints_of_extends (hext : s.Extends s') {p : GenericParameter}
    (hp : ∀ c ∈ p.constraints, s.Holds c) :
    MatchCost.addConstraints s' p = MatchCost.addConstraints s p := by
  have hcount : (p.constraints.countP fun c => (s'.info c).isInterface) =
      p.constraints.countP fun c => (s.info c).isInterface :=
    List.countP_congr fun c hc => by rw [hext.info_eq (hp c hc)]
  funext cost
  rw [MatchCost.addConstraints, MatchCost.addConstraints, hcount]

include hs hext hr hsource hi

theorem matchConstraint_same {c : TypeId} (hc : s.Holds c) :
    Same (fun j : Inference => j.All s.Holds) (matchConstraint s r source c i)
      (matchConstraint s' r' source c i) := by
  rw [matchConstraint, matchConstraint, hext.info_eq hc,
    Store.ancestors_of_extends hs hext hsource]
  split
  · exact hr _ _ _ _ hsource hc hi
  · exact .any fun a ha =>
      hr _ _ _ _ ((Store.upward_of_mem_ancestors ha).holds hs hsource) hc hi

theorem matchConstraints_same {constraints : List TypeId} (hcons : ∀ c ∈ constraints, s.Holds c) :
    Same (fun j : Inference => j.All s.Holds) (matchConstraints s r source constraints i)
      (matchConstraints s' r' source constraints i) :=
  (Same.all (fun c hc _ hx => matchConstraint_same hs hext hr hsource hx (hcons c hc)) hi).map
    fun _ hx => hx.of_slots_eq rfl rfl

theorem matchParameter_same (v : Variance) {p : GenericParameter}
    (hp : (s.info member).shape = .parameter p) :
    Same (fun j : Inference => j.All s.Holds) (matchParameter s r source v member p i)
      (matchParameter s' r' source v member p i) := by
  have hcons : ∀ c ∈ p.constraints, s.Holds c := fun c hc => hs.holds_constraint (t := member) (by
    rw [TypeInfo.constraints_of_parameter hp]
    exact hc)
  rw [matchParameter, matchParameter, satisfiesFlags_of_extends hext hsource,
    addConstraints_of_extends hext hcons]
  split
  case isTrue howns =>
    split
    case h_1 b hb =>
      split
      · exact .accepted hi
      · have hheld := hi p b howns hb
        exact (hr _ _ _ _ hsource hheld hi).orElse (hr _ _ _ _ hsource hheld hi)
    case h_2 =>
      split
      · exact (matchConstraints_same hs hext hr hsource (hi.put hsource howns) hcons).map
          fun _ hx => hx.of_slots_eq rfl rfl
      · exact .refused
  case isFalse => exact .guard hi

include hmember

theorem matchElements_same :
    Same (fun j : Inference => j.All s.Holds) (matchElements s r source member i)
      (matchElements s' r' source member i) := by
  rw [matchElements, matchElements, hext.info_eq hsource, hext.info_eq hmember]
  split
  case h_1 e rank e' rank' he he' =>
    split
    · exact hr _ _ _ _ (hs.inherited_holds.element he hsource)
        (hs.inherited_holds.element he' hmember) hi
    · exact .refused
  case h_2 => exact .refused

theorem matchArguments_same :
    Same (fun j : Inference => j.All s.Holds) (matchArguments s r source member i)
      (matchArguments s' r' source member i) := by
  rw [matchArguments, matchArguments, Store.genericDefinition_of_extends hext hsource,
    Store.genericDefinition_of_extends hext hmember, hext.info_eq hsource, hext.info_eq hmember]
  split
  case h_1 =>
    dsimp only
    split
    · refine .all (fun pair hpair x hx => ?_) hi
      exact hr _ _ _ _ (hs.inherited_holds.argument (List.of_mem_zip hpair).1 hsource)
        (hs.inherited_holds.argument (List.of_mem_zip hpair).2 hmember) hx
    · exact .refused
  case h_2 => exact .refused

theorem widen_same :
    Same (fun j : Inference => j.All s.Holds) (widen s r source member i)
      (widen s' r' source member i) := by
  refine .orElse ?_ (.orElse ?_ ?_)
  · rw [widenToInterface, widenToInterface, hext.info_eq hmember,
      Store.allInterfaces_of_extends hs hext hsource]
    split
    · refine .any fun f hf => ?_
      have hheld := (Store.upward_of_mem_allInterfaces hf).holds hs hsource
      rw [addInterfaceStep_of_extends hext hheld]
      exact (hr _ _ _ _ hheld hmember hi).map fun _ hx => hx.of_slots_eq rfl rfl
    · exact .refused
  · rw [widenToNullable, widenToNullable, hext.info_eq hsource,
      Store.nullableUnderlying_of_extends hext hsource,
      Store.nullableUnderlying_of_extends hext hmember]
    split
    case h_1 u hu =>
      split
      · exact hr _ _ _ _ hsource
          (hs.inherited_holds.argument (Store.nullableUnderlying_mem hu) hmember) hi
      · exact .refused
    case h_2 => exact .refused
  · rw [widenToBase, widenToBase, baseStep_of_extends hext hsource]
    split
    case h_1 b hb =>
      have hheld := hs.inherited_holds.baseStep hb hsource
      rw [addBaseStep_of_extends hext hheld]
      exact (hr _ _ _ _ hheld hmember hi).map fun _ hx => hx.of_slots_eq rfl rfl
    case h_2 => exact .refused

theorem narrow_same :
    Same (fun j : Inference => j.All s.Holds) (narrow s r source member i)
      (narrow s' r' source member i) := by
  refine .orElse ?_ (.orElse ?_ ?_)
  · rw [narrowFromInterface, narrowFromInterface, hext.info_eq hsource,
      Store.allInterfaces_of_extends hs hext hmember]
    split
    · refine .any fun f hf => ?_
      have hheld := (Store.upward_of_mem_allInterfaces hf).holds hs hmember
      rw [addInterfaceStep_of_extends hext hheld]
      exact (hr _ _ _ _ hsource hheld hi).map fun _ hx => hx.of_slots_eq rfl rfl
    · exact .refused
  · rw [narrowFromNullable, narrowFromNullable, hext.info_eq hmember,
      Store.nullableUnderlying_of_extends hext hsource,
      Store.nullableUnderlying_of_extends hext hmember]
    split
    case h_1 u hu =>
      split
      · exact hr _ _ _ _ (hs.inherited_holds.argument (Store.nullableUnderlying_mem hu) hsource)
          hmember hi
      · exact .refused
    case h_2 => exact .refused
  · rw [narrowFromBase, narrowFromBase, baseStep_of_extends hext hmember]
    split
    case h_1 b hb =>
      have hheld := hs.inherited_holds.baseStep hb hmember
      rw [addBaseStep_of_extends hext hheld]
      exact (hr _ _ _ _ hsource hheld hi).map fun _ hx => hx.of_slots_eq rfl rfl
    case h_2 => exact .refused

/-- **One level of a match is the same** if the level below is. -/
theorem matchStep_same (v : Variance) :
    Same (fun j : Inference => j.All s.Holds) (matchStep s r source v member i)
      (matchStep s' r' source v member i) := by
  rw [matchStep, matchStep, hext.info_eq hsource, hext.info_eq hmember]
  split
  case h_1 p hp => exact matchParameter_same hs hext hr hsource hi v hp
  case h_2 e he =>
    have hheld := hs.inherited_holds.target he hmember
    split
    · exact .accepted hi
    · split
      case h_1 e' he' => exact hr _ _ _ _ (hs.inherited_holds.target he' hsource) hheld hi
      case h_2 => exact hr _ _ _ _ hsource hheld hi
  case h_3 =>
    split
    · exact .accepted hi
    · refine (matchElements_same hs hext hr hsource hmember hi).orElse
        ((matchArguments_same hs hext hr hsource hmember hi).orElse ?_)
      cases v with
      | invariant => exact .refused
      | contravariant => exact widen_same hs hext hr hsource hmember hi
      | covariant => exact narrow_same hs hext hr hsource hmember hi

end Level

/-! ### All depths -/

section Depths

variable {s s' : Store} (hs : s.WellFormed) (hext : s.Extends s')

include hs hext

theorem matchWithin_sameOn (depth : Nat) :
    (matchWithin s depth).SameOn s (matchWithin s' depth) := by
  induction depth with
  | zero => exact fun _ _ _ _ _ _ _ => ⟨rfl, by rintro _ ⟨⟩⟩
  | succ depth ih =>
    exact fun _ v _ _ hsource hmember hi => matchStep_same hs hext ih hsource hmember hi v

/-- **A match of held types does not change when the store grows.** -/
theorem matchWithin_of_extends {depth : Nat} {source member : TypeId} {v : Variance} {i : Inference}
    (hsource : s.Holds source) (hmember : s.Holds member) (hi : i.All s.Holds) :
    matchWithin s' depth source v member i = matchWithin s depth source v member i :=
  (matchWithin_sameOn hs hext depth source v member i hsource hmember hi).1

end Depths

end CallSite
