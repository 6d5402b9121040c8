import CallSite.Proofs.Match.Growth
import CallSite.Proofs.Match.Lockstep
import CallSite.Proofs.Match.Transaction
import CallSite.Proofs.Type.Form
import Mathlib.Order.Filter.AtTopBot.Basic
import Mathlib.Order.Filter.Finite

/-!
# Matches without slots

Where no parameter has a slot a match infers nothing and only decides whether a source flows into a
member. `CallSite.Store.Accepts` is this decision, taken at a depth that is great enough.

* `Attempt.Stays`, `Attempt.Ends` – an attempt that leaves the slots as they were; without slots
  these are `Attempt.Closes` and `Attempt.Decided`.
* `matchWithin_decided` – an invariant match without slots ends: the parts of the member come to an
  end.
* `Store.Accepts.of_interface`, `Store.Accepts.of_base` and their like – what is accepted is closed
  under each rule of a match. The ways that are tried before the one that succeeds are invariant
  matches, so they end and are given up.
-/

namespace CallSite

/-- **A source flows into a member** where no parameter has a slot. -/
def Store.Accepts (s : Store) (source : TypeId) (v : Variance) (member : TypeId) : Prop :=
  ∃ depth j, s.matches depth source v member {} = some j

namespace Attempt

/-! ### Attempts that leave the slots -/

/-- The attempt is accepted, and the slots are what they were. -/
def Stays (i : Inference) (a : Attempt Inference) : Prop :=
  ∃ cost, a = .accepted { i with cost := cost }

/-- The attempt ends, and if it is accepted the slots are what they were. -/
def Ends (i : Inference) (a : Attempt Inference) : Prop :=
  a = .refused ∨ a.Stays i

variable {i j : Inference} {a : Attempt Inference} {β : Type}
  {step : β → Inference → Attempt Inference} {items : List β}

theorem Stays.accepted (i : Inference) (cost : MatchCost) :
    Stays i (.accepted { i with cost := cost }) :=
  ⟨cost, rfl⟩

theorem Stays.map (h : a.Stays i) (change : MatchCost → MatchCost) :
    (a.map (Inference.mapCost change)).Stays i := by
  obtain ⟨cost, rfl⟩ := h
  exact ⟨change cost, rfl⟩

theorem Stays.orElse (h : a.Stays i) (f : Unit → Attempt Inference) : (a.orElse f).Stays i := by
  obtain ⟨cost, rfl⟩ := h
  exact ⟨cost, rfl⟩

theorem Ends.guard (i : Inference) (condition : Bool) (cost : MatchCost) :
    (Attempt.guard condition { i with cost := cost }).Ends i := by
  cases condition
  · exact .inl rfl
  · exact .inr (.accepted i cost)

theorem Ends.map (h : a.Ends i) (change : MatchCost → MatchCost) :
    (a.map (Inference.mapCost change)).Ends i := by
  obtain rfl | h := h
  · exact .inl rfl
  · exact .inr (h.map change)

/-- What ends gives way, or needs not to. -/
theorem Ends.orElse_stays (h : a.Ends i) {f : Unit → Attempt Inference} (hf : (f ()).Stays i) :
    (a.orElse f).Stays i := by
  obtain rfl | h := h
  · exact hf
  · exact h.orElse f

theorem Ends.orElse (h : a.Ends i) {f : Unit → Attempt Inference} (hf : (f ()).Ends i) :
    (a.orElse f).Ends i := by
  obtain rfl | h := h
  · exact hf
  · exact .inr (h.orElse f)

theorem Ends.any (h : ∀ b ∈ items, (step b j).Ends i) :
    (Attempt.any step items j).Ends i := by
  induction items with
  | nil => exact .inl rfl
  | cons b items ih =>
    exact (h b List.mem_cons_self).orElse (ih fun c hc => h c (List.mem_cons_of_mem _ hc))

/-- One way that succeeds is found, or one before it, since the ways before it end. -/
theorem Stays.any (h : ∀ b ∈ items, (step b j).Ends i) {b : β} (hmem : b ∈ items)
    (hb : (step b j).Stays i) : (Attempt.any step items j).Stays i := by
  induction items with
  | nil => cases hmem
  | cons c items ih =>
    rcases List.mem_cons.mp hmem with rfl | hmem
    · exact hb.orElse _
    · exact (h c List.mem_cons_self).orElse_stays
        (ih (fun d hd => h d (List.mem_cons_of_mem _ hd)) hmem)

theorem Ends.all (h : ∀ b ∈ items, ∀ cost, (step b { i with cost := cost }).Ends i)
    (cost : MatchCost) : (Attempt.all step items { i with cost := cost }).Ends i := by
  induction items generalizing cost with
  | nil => exact .inr (.accepted i cost)
  | cons b items ih =>
    rw [Attempt.all]
    obtain hb | ⟨cost', hb⟩ := h b List.mem_cons_self cost
    · rw [hb]
      exact .inl rfl
    · rw [hb]
      exact ih (fun c hc => h c (List.mem_cons_of_mem _ hc)) cost'

/-- Items that keep the slots one by one keep them all. -/
theorem Stays.all (h : ∀ b ∈ items, ∀ cost, (step b { i with cost := cost }).Stays i)
    (cost : MatchCost) : (Attempt.all step items { i with cost := cost }).Stays i := by
  induction items generalizing cost with
  | nil => exact .accepted i cost
  | cons b items ih =>
    obtain ⟨cost', hb⟩ := h b List.mem_cons_self cost
    rw [Attempt.all, hb]
    exact ih (fun c hc => h c (List.mem_cons_of_mem _ hc)) cost'

/-! ### Attempts without slots -/

/-- The attempt is accepted, and nothing but a cost comes of it. -/
def Closes (a : Attempt Inference) : Prop :=
  ∃ cost, a = .accepted { cost := cost }

/-- The attempt ends, and nothing but a cost may come of it. -/
def Decided (a : Attempt Inference) : Prop :=
  a = .refused ∨ a.Closes

/-- Without slots nothing is left of the inference but a cost. -/
theorem closes_iff : a.Closes ↔ a.Stays {} :=
  .rfl

theorem decided_iff : a.Decided ↔ a.Ends {} :=
  .rfl

theorem Closes.accepted (cost : MatchCost) : (accepted { cost := cost }).Closes :=
  Stays.accepted {} cost

theorem Decided.guard (condition : Bool) (cost : MatchCost) :
    (Attempt.guard condition { cost := cost }).Decided :=
  Ends.guard {} condition cost

theorem Closes.map (h : a.Closes) (change : MatchCost → MatchCost) :
    (a.map (Inference.mapCost change)).Closes :=
  closes_iff.mpr ((closes_iff.mp h).map change)

theorem Decided.map (h : a.Decided) (change : MatchCost → MatchCost) :
    (a.map (Inference.mapCost change)).Decided :=
  decided_iff.mpr ((decided_iff.mp h).map change)

theorem Closes.orElse (h : a.Closes) (b : Unit → Attempt Inference) : (a.orElse b).Closes :=
  closes_iff.mpr ((closes_iff.mp h).orElse b)

/-- What ends without success gives way to what succeeds. -/
theorem Decided.orElse_closes (h : a.Decided) {b : Unit → Attempt Inference}
    (hb : (b ()).Closes) : (a.orElse b).Closes :=
  closes_iff.mpr ((decided_iff.mp h).orElse_stays hb)

theorem Decided.orElse (h : a.Decided) {b : Unit → Attempt Inference} (hb : (b ()).Decided) :
    (a.orElse b).Decided :=
  decided_iff.mpr ((decided_iff.mp h).orElse hb)

theorem Decided.all (h : ∀ b ∈ items, ∀ cost, (step b { cost := cost }).Decided)
    (cost : MatchCost) : (Attempt.all step items { cost := cost }).Decided :=
  Ends.all (i := {}) h cost

theorem Closes.all (h : ∀ b ∈ items, ∀ cost, (step b { cost := cost }).Closes)
    (cost : MatchCost) : (Attempt.all step items { cost := cost }).Closes :=
  Stays.all (i := {}) h cost

theorem Decided.any (h : ∀ b ∈ items, (step b i).Decided) :
    (Attempt.any step items i).Decided :=
  Ends.any (i := {}) h

theorem Closes.any (h : ∀ b ∈ items, (step b i).Decided) {b : β}
    (hmem : b ∈ items) (hb : (step b i).Closes) : (Attempt.any step items i).Closes :=
  Stays.any (i := {}) h hmem hb

end Attempt

/-- Without slots no parameter has one. -/
theorem Inference.owns_of_empty (cost : MatchCost) (p : GenericParameter) :
    Inference.owns { cost := cost } p = false := by
  unfold owns
  cases p.owner <;> rfl

/-- Slots that are not there are not extended. -/
theorem Slots.Extends.eq_empty {slots : Slots} (h : Slots.empty.Extends slots) :
    slots = Slots.empty := by
  obtain ⟨owner, bound⟩ := slots
  obtain ⟨howner, harity, -⟩ := h
  obtain rfl : owner = none := howner
  obtain rfl : bound = [] := List.eq_nil_of_length_eq_zero harity
  rfl

theorem Inference.Extends.eq_of_empty {cost : MatchCost} {j : Inference}
    (h : Extends { cost := cost } j) : j = { cost := j.cost } := by
  obtain ⟨typeSlots, methodSlots, cost'⟩ := j
  obtain rfl : typeSlots = Slots.empty := h.typeSlots.eq_empty
  obtain rfl : methodSlots = Slots.empty := h.methodSlots.eq_empty
  rfl

/-! ### Invariant matches without slots end -/

section Invariant

variable {s : Store}

theorem decided_elements {depth : Nat} {source member : TypeId}
    (ih : ∀ t u, u ∈ s.parts member → ∀ cost,
      (matchWithin s depth t .invariant u { cost := cost }).Decided) (cost : MatchCost) :
    (matchElements s (matchWithin s depth) source member { cost := cost }).Decided := by
  unfold matchElements
  split
  case h_1 e rank e' rank' hs hm =>
    split
    · refine ih e e' ?_ cost
      exact Store.element_mem_parts (TypeInfo.form_eq_array_iff.mpr hm)
    · exact .inl rfl
  case h_2 => exact .inl rfl

theorem decided_arguments (hs : s.Formed) {depth : Nat} {source member : TypeId}
    (ih : ∀ t u, u ∈ s.parts member → ∀ cost,
      (matchWithin s depth t .invariant u { cost := cost }).Decided) (cost : MatchCost) :
    (matchArguments s (matchWithin s depth) source member { cost := cost }).Decided := by
  unfold matchArguments
  split
  case h_1 d d' _ _ =>
    dsimp only
    split
    · refine .all (fun pair hpair => ih pair.1 pair.2 ?_) cost
      exact hs.mem_parts_of_mem_arguments (List.of_mem_zip hpair).2
    · exact .inl rfl
  case h_2 => exact .inl rfl

/-- **An invariant match without slots ends**, once it is cut off deeper than the member is high. -/
theorem matchWithin_decided (hs : s.Formed) {depth : Nat} {source member : TypeId}
    (hdepth : s.height member < depth) (cost : MatchCost) :
    (matchWithin s depth source .invariant member { cost := cost }).Decided := by
  induction depth generalizing source member cost with
  | zero => exact absurd hdepth (Nat.not_lt_zero _)
  | succ depth ih =>
    have hparts : ∀ t u, u ∈ s.parts member → ∀ cost,
        (matchWithin s depth t .invariant u { cost := cost }).Decided := fun t u hu cost =>
      ih (Nat.lt_of_lt_of_le (hs.height_part hu) (Nat.le_of_lt_succ hdepth)) cost
    rw [matchWithin, matchStep]
    split
    case h_1 p hp =>
      rw [matchParameter, if_neg (by rw [Inference.owns_of_empty]; exact Bool.false_ne_true)]
      exact .guard _ cost
    case h_2 e he =>
      have hpart : e ∈ s.parts member :=
        Store.target_mem_parts (TypeInfo.form_eq_reference_iff.mpr he)
      split
      · exact .inr (.accepted cost)
      split
      · exact hparts _ e hpart cost
      · exact hparts source e hpart cost
    case h_3 =>
      split
      · exact .inr (.accepted cost)
      · exact (decided_elements hparts cost).orElse
          ((decided_arguments hs hparts cost).orElse (.inl rfl))

end Invariant

/-! ### What is accepted at great depths -/

namespace Store

variable {s : Store} {source member : TypeId} {v : Variance}

theorem accepts_of_closes (depth : Nat) (cost : MatchCost)
    (h : (matchWithin s depth source v member { cost := cost }).Closes) :
    s.Accepts source v member := by
  obtain ⟨cost', h⟩ := h
  have hstart : Inference.addCost cost {} = { cost := cost } := rfl
  have hadd : matchWithin s depth source v member (Inference.addCost cost {}) = _ :=
    matchWithin_addCost cost
  rw [hstart, h] at hadd
  obtain ⟨j, hj, -⟩ := Attempt.map_eq_accepted_iff.mp hadd.symm
  exact ⟨depth, j, matches_eq_some_iff.mpr hj⟩

/-- **What is accepted is accepted at every depth that is great enough**, whatever was counted
before. -/
theorem Accepts.eventually (h : s.Accepts source v member) :
    ∀ᶠ depth in Filter.atTop, ∀ cost,
      (matchWithin s depth source v member { cost := cost }).Closes := by
  obtain ⟨depth, j, hj⟩ := h
  rw [matches_eq_some_iff] at hj
  filter_upwards [Filter.eventually_ge_atTop depth] with depth' hle cost
  have hstart : Inference.addCost cost {} = { cost := cost } := rfl
  have hends : matchWithin s depth source v member {} ≠ .unfinished := by
    rw [hj]
    rintro ⟨⟩
  have hrun : matchWithin s depth' source v member { cost := cost } =
      .accepted (j.addCost cost) := by
    rw [← hstart, matchWithin_addCost, matchWithin_of_le hle hends, hj]
    rfl
  exact ⟨_, hrun.trans (congrArg Attempt.accepted (matchWithin_extends hrun).eq_of_empty)⟩

/-- What is accepted is refused at no depth. -/
theorem Accepts.ne_refused (h : s.Accepts source v member) (depth : Nat) :
    matchWithin s depth source v member {} ≠ .refused := by
  intro hrefused
  obtain ⟨depth', hdepth, hcloses⟩ := ((Filter.eventually_ge_atTop depth).and h.eventually).exists
  obtain ⟨cost, haccepted⟩ : (matchWithin s depth' source v member {}).Closes := hcloses {}
  have hends : matchWithin s depth source v member {} ≠ .unfinished := by
    rw [hrefused]
    rintro ⟨⟩
  rw [matchWithin_of_le hdepth hends, hrefused] at haccepted
  cases haccepted

/-- At every depth that is great enough an invariant match without slots ends. -/
theorem eventually_decided (hs : s.Formed) (member : TypeId) :
    ∀ᶠ depth in Filter.atTop, ∀ source cost,
      (matchWithin s depth source .invariant member { cost := cost }).Decided := by
  filter_upwards [Filter.eventually_gt_atTop (s.height member)] with depth hdepth source cost
  exact matchWithin_decided hs hdepth cost

/-- What holds of each item at every depth that is great enough holds of all of them there. -/
theorem eventually_forall_mem {α : Type} {items : List α} {P : α → Nat → Prop}
    (h : ∀ a ∈ items, ∀ᶠ depth in Filter.atTop, P a depth) :
    ∀ᶠ depth in Filter.atTop, ∀ a ∈ items, P a depth :=
  (Filter.eventually_all_finite items.finite_toSet).mpr h

/-- A type flows into itself. -/
theorem Accepts.self (s : Store) (t : TypeId) (v : Variance) : s.Accepts t v t := by
  refine accepts_of_closes 1 {} ?_
  rw [matchWithin, matchStep]
  split
  case h_1 p hp =>
    rw [matchParameter, if_neg (by rw [Inference.owns_of_empty]; exact Bool.false_ne_true),
      Attempt.guard, if_pos (decide_eq_true rfl)]
    exact .accepted _
  case h_2 =>
    rw [if_pos rfl]
    exact .accepted _
  case h_3 =>
    rw [if_pos rfl]
    exact .accepted _

end Store

/-! ### The rules without slots -/

section Rules

variable {s : Store} {source member : TypeId} {v : Variance} {depth : Nat} {cost : MatchCost}

/-- A member that is neither a parameter nor a reference is matched in three ways. -/
theorem matchWithin_succ_of_plain (hp : (s.info member).isParameter = false)
    (hr : (s.info member).isByRef = false) (i : Inference) :
    matchWithin s (depth + 1) source v member i =
      if source = member then .accepted i
      else (matchElements s (matchWithin s depth) source member i).orElse fun _ =>
        (matchArguments s (matchWithin s depth) source member i).orElse fun _ =>
        matchVariance s (matchWithin s depth) source v member i := by
  rw [matchWithin, matchStep]
  unfold TypeInfo.isParameter at hp
  unfold TypeInfo.isByRef at hr
  cases hm : (s.info member).shape with
  | parameter p =>
    rw [hm] at hp
    cases hp
  | byRefType e =>
    rw [hm] at hr
    cases hr
  | classType | interfaceType | structType | arrayType => rfl

/-- What a variance allows is found after the parts of both sides were compared. -/
theorem closes_of_variance (hs : s.Formed) (hp : (s.info member).isParameter = false)
    (hr : (s.info member).isByRef = false)
    (hdec : ∀ t u, u ∈ s.parts member → ∀ cost,
      (matchWithin s depth t .invariant u { cost := cost }).Decided)
    (h : (matchVariance s (matchWithin s depth) source v member { cost := cost }).Closes) :
    (matchWithin s (depth + 1) source v member { cost := cost }).Closes := by
  rw [matchWithin_succ_of_plain hp hr]
  split
  · exact .accepted cost
  · exact (decided_elements hdec cost).orElse_closes
      ((decided_arguments hs hdec cost).orElse_closes h)

end Rules

namespace Store.Accepts

variable {s : Store} {source member : TypeId} {v : Variance}

/-- At every depth that is great enough the parts of a type are compared to an end. -/
theorem eventually_parts_decided (hs : s.Formed) (member : TypeId) :
    ∀ᶠ depth in Filter.atTop, ∀ t u, u ∈ s.parts member → ∀ cost,
      (matchWithin s depth t .invariant u { cost := cost }).Decided := by
  filter_upwards [Filter.eventually_gt_atTop (s.height member)] with depth hdepth t u hu
  exact matchWithin_decided hs (Nat.lt_trans (hs.height_part hu) hdepth)

theorem of_references {e e' : TypeId}
    (hsource : (s.info source).shape = .byRefType e)
    (hmember : (s.info member).shape = .byRefType e')
    (h : s.Accepts e .invariant e') : s.Accepts source v member := by
  obtain ⟨depth, hclose⟩ := h.eventually.exists
  refine accepts_of_closes (depth + 1) {} ?_
  rw [matchWithin, matchStep, hmember]
  dsimp only
  split
  · exact .accepted _
  · rw [hsource]
    exact hclose {}

theorem of_reference {e : TypeId} (hsource : (s.info source).isByRef = false)
    (hmember : (s.info member).shape = .byRefType e) (h : s.Accepts source v e) :
    s.Accepts source v member := by
  obtain ⟨depth, hclose⟩ := h.eventually.exists
  refine accepts_of_closes (depth + 1) {} ?_
  rw [matchWithin, matchStep, hmember]
  dsimp only
  split
  · exact .accepted _
  split
  case h_1 e' he' =>
    exact absurd he' (TypeInfo.shape_ne_reference hsource)
  case h_2 => exact hclose {}

theorem of_elements {e e' : TypeId} {rank : Nat}
    (hsource : (s.info source).shape = .arrayType e rank)
    (hmember : (s.info member).shape = .arrayType e' rank) (h : s.Accepts e .invariant e') :
    s.Accepts source v member := by
  obtain ⟨depth, hclose⟩ := h.eventually.exists
  refine accepts_of_closes (depth + 1) {} ?_
  rw [matchWithin_succ_of_plain (by rw [TypeInfo.isParameter, hmember])
    (by rw [TypeInfo.isByRef, hmember])]
  split
  · exact .accepted _
  · refine Attempt.Closes.orElse ?_ _
    rw [matchElements, hsource, hmember]
    dsimp only
    rw [if_pos rfl]
    exact hclose {}

theorem of_arguments (hs : s.Formed) {d : TypeId} (hp : (s.info member).isParameter = false)
    (hr : (s.info member).isByRef = false) (hsource : s.genericDefinition source = some d)
    (hmember : s.genericDefinition member = some d)
    (hlen : (s.info source).arguments.length = (s.info member).arguments.length)
    (h : ∀ pair ∈ (s.info source).arguments.zip (s.info member).arguments,
      s.Accepts pair.1 .invariant pair.2) : s.Accepts source v member := by
  obtain ⟨depth, hdec, hclose⟩ := ((eventually_parts_decided hs member).and
    (eventually_forall_mem fun pair hpair => (h pair hpair).eventually)).exists
  refine accepts_of_closes (depth + 1) {} ?_
  rw [matchWithin_succ_of_plain hp hr]
  split
  · exact .accepted _
  · refine (decided_elements hdec {}).orElse_closes (Attempt.Closes.orElse ?_ _)
    rw [matchArguments, hsource, hmember]
    dsimp only
    rw [if_pos ⟨rfl, hlen⟩]
    exact .all hclose {}

theorem of_interface (hs : s.Formed) {f : TypeId} (hmember : (s.info member).isInterface)
    (hf : f ∈ s.allInterfaces source) (h : s.Accepts f .invariant member) :
    s.Accepts source .contravariant member := by
  obtain ⟨depth, hdec, hparts, hclose⟩ := ((eventually_decided hs member).and
    ((eventually_parts_decided hs member).and h.eventually)).exists
  have hplain := TypeInfo.plain_of_form_eq_named (TypeInfo.form_of_isInterface hmember)
  refine accepts_of_closes (depth + 1) {} (closes_of_variance hs hplain.1 hplain.2 hparts ?_)
  rw [matchVariance, widen]
  refine Attempt.Closes.orElse ?_ _
  rw [widenToInterface, if_pos hmember]
  exact .any (fun g _ => (hdec g {}).map _) hf ((hclose {}).map _)

theorem decided_widenToInterface {depth : Nat}
    (hdec : ∀ t cost, (matchWithin s depth t .invariant member { cost := cost }).Decided)
    (cost : MatchCost) :
    (widenToInterface s (matchWithin s depth) source member { cost := cost }).Decided := by
  unfold widenToInterface
  split
  · exact .any fun f _ => (hdec f cost).map _
  · exact .inl rfl

theorem decided_widenToNullable (hs : s.Formed) {depth : Nat}
    (hparts : ∀ t u, u ∈ s.parts member → ∀ cost,
      (matchWithin s depth t .invariant u { cost := cost }).Decided) (cost : MatchCost) :
    (widenToNullable s (matchWithin s depth) source member { cost := cost }).Decided := by
  unfold widenToNullable
  split
  case h_1 u hu =>
    split
    · exact hparts source u (hs.mem_parts_of_mem_arguments (nullableUnderlying_mem hu)) cost
    · exact .inl rfl
  case h_2 => exact .inl rfl

theorem of_nullable (hs : s.Formed) {u : TypeId} (hp : (s.info member).isParameter = false)
    (hr : (s.info member).isByRef = false) (hu : s.nullableUnderlying member = some u)
    (hvalue : (s.info source).isValueType) (hnone : s.nullableUnderlying source = none)
    (h : s.Accepts source .invariant u) : s.Accepts source .contravariant member := by
  obtain ⟨depth, hdec, hparts, hclose⟩ := ((eventually_decided hs member).and
    ((eventually_parts_decided hs member).and h.eventually)).exists
  refine accepts_of_closes (depth + 1) {} (closes_of_variance hs hp hr hparts ?_)
  rw [matchVariance, widen]
  refine (decided_widenToInterface hdec {}).orElse_closes ?_
  refine Attempt.Closes.orElse ?_ _
  rw [widenToNullable, hu]
  dsimp only
  rw [hvalue, hnone]
  exact hclose {}

theorem of_base (hs : s.Formed) {b : TypeId} (hp : (s.info member).isParameter = false)
    (hr : (s.info member).isByRef = false) (hb : baseStep s source = some b)
    (h : s.Accepts b .contravariant member) : s.Accepts source .contravariant member := by
  obtain ⟨depth, hdec, hparts, hclose⟩ := ((eventually_decided hs member).and
    ((eventually_parts_decided hs member).and h.eventually)).exists
  refine accepts_of_closes (depth + 1) {} (closes_of_variance hs hp hr hparts ?_)
  rw [matchVariance, widen]
  refine (decided_widenToInterface hdec {}).orElse_closes ?_
  refine (decided_widenToNullable hs hparts {}).orElse_closes ?_
  rw [widenToBase, hb]
  exact (hclose {}).map _

theorem of_narrowed_interface (hs : s.Formed) {f : TypeId}
    (hp : (s.info member).isParameter = false) (hr : (s.info member).isByRef = false)
    (hsource : (s.info source).isInterface) (hf : f ∈ s.allInterfaces member)
    (h : s.Accepts source .invariant f) : s.Accepts source .covariant member := by
  obtain ⟨depth, hdec, hparts, hclose⟩ := ((eventually_forall_mem fun f _ =>
    eventually_decided hs f).and ((eventually_parts_decided hs member).and h.eventually)).exists
  refine accepts_of_closes (depth + 1) {} (closes_of_variance hs hp hr hparts ?_)
  rw [matchVariance, narrow]
  refine Attempt.Closes.orElse ?_ _
  rw [narrowFromInterface, if_pos hsource]
  exact .any (fun g hg => (hdec g hg source {}).map _) hf ((hclose {}).map _)

theorem decided_narrowFromInterface {depth : Nat}
    (hdec : ∀ f ∈ s.allInterfaces member, ∀ t cost,
      (matchWithin s depth t .invariant f { cost := cost }).Decided) (cost : MatchCost) :
    (narrowFromInterface s (matchWithin s depth) source member { cost := cost }).Decided := by
  unfold narrowFromInterface
  split
  · exact .any fun f hf => (hdec f hf source cost).map _
  · exact .inl rfl

theorem decided_narrowFromNullable {depth : Nat}
    (hdec : ∀ t cost, (matchWithin s depth t .invariant member { cost := cost }).Decided)
    (cost : MatchCost) :
    (narrowFromNullable s (matchWithin s depth) source member { cost := cost }).Decided := by
  unfold narrowFromNullable
  split
  · split
    · exact hdec _ cost
    · exact .inl rfl
  · exact .inl rfl

theorem of_narrowed_nullable (hs : s.Formed) {u : TypeId}
    (hu : s.nullableUnderlying source = some u) (hvalue : (s.info member).isValueType)
    (hnone : s.nullableUnderlying member = none) (h : s.Accepts u .invariant member) :
    s.Accepts source .covariant member := by
  obtain ⟨depth, hdec, hparts, hclose⟩ := ((eventually_forall_mem fun f _ =>
    eventually_decided hs f).and ((eventually_parts_decided hs member).and h.eventually)).exists
  have hplain := TypeInfo.plain_of_form_eq_named (TypeInfo.form_of_isValueType hvalue)
  refine accepts_of_closes (depth + 1) {} (closes_of_variance hs hplain.1 hplain.2 hparts ?_)
  rw [matchVariance, narrow]
  refine (decided_narrowFromInterface hdec {}).orElse_closes ?_
  refine Attempt.Closes.orElse ?_ _
  rw [narrowFromNullable, hu]
  dsimp only
  rw [hvalue, hnone]
  exact hclose {}

theorem of_narrowed_base (hs : s.Formed) {b : TypeId} (hp : (s.info member).isParameter = false)
    (hr : (s.info member).isByRef = false) (hb : baseStep s member = some b)
    (h : s.Accepts source .covariant b) : s.Accepts source .covariant member := by
  obtain ⟨depth, hdec, hmember, hparts, hclose⟩ := ((eventually_forall_mem fun f _ =>
    eventually_decided hs f).and ((eventually_decided hs member).and
      ((eventually_parts_decided hs member).and h.eventually))).exists
  refine accepts_of_closes (depth + 1) {} (closes_of_variance hs hp hr hparts ?_)
  rw [matchVariance, narrow]
  refine (decided_narrowFromInterface hdec {}).orElse_closes ?_
  refine (decided_narrowFromNullable hmember {}).orElse_closes ?_
  rw [narrowFromBase, hb]
  exact (hclose {}).map _

end Store.Accepts

end CallSite
