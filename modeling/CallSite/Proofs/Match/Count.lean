import CallSite.Proofs.Match.Transaction
import CallSite.Proofs.Match.Unification
import CallSite.Proofs.Type.Check
import Mathlib.Algebra.GroupWithZero.Nat

/-!
# What a match counts of constraints

When a match fills the slot of a parameter it counts the constraints that the parameter declares. It
does so unless the slot is filled on the way of a check: what was counted while the constraints of
another parameter were checked is taken back once they are. So which slots are counted depends on
which parameter is met first, and the counts are those of all slots that were filled only where no
check fills one (`CallSite.checked_slot_not_counted`).

* `MatchCost.constraintCounts`, `GenericParameter.declaredCounts` – what is counted of constraints,
  and what one parameter adds.
* `Inference.Fills` – a slot was empty and is filled.
* `Store.Tally` – some slots were filled and counted, and the others were filled by checks.
* `constraintCounts_of_matches` – every accepted match has a tally, and where the source is settled
  a slot that is missing from it is asked for by the constraint of another parameter.
-/

namespace CallSite

/-! ### Counts -/

/-- What was counted of constraints: those on types, those that are interfaces, those on
constructors. -/
def MatchCost.constraintCounts (cost : MatchCost) : Nat × Nat × Nat :=
  (cost.typeConstraints, cost.interfaceConstraints, cost.constructorConstraints)

namespace GenericParameter

/-- **What a parameter declares**: the flags for references and for values and each constraint that
is no interface count as constraints on types. -/
def declaredCounts (s : Store) (p : GenericParameter) : Nat × Nat × Nat :=
  (MatchCost.one (p.flags.contains Flags.reference) +
      MatchCost.one (p.flags.contains Flags.nonNullableValue) +
      p.constraints.countP fun c => !(s.info c).isInterface,
    p.constraints.countP fun c => (s.info c).isInterface,
    MatchCost.one (p.flags.contains Flags.defaultConstructor))

/-- The place of a parameter among those of its owner. -/
def slot (p : GenericParameter) : Owner × Nat :=
  (p.owner, p.position)

end GenericParameter

namespace MatchCost

@[simp]
theorem constraintCounts_addBaseStep (s : Store) (base : TypeId) (cost : MatchCost) :
    (cost.addBaseStep s base).constraintCounts = cost.constraintCounts := rfl

@[simp]
theorem constraintCounts_addInterfaceStep (s : Store) (interface : TypeId) (cost : MatchCost) :
    (cost.addInterfaceStep s interface).constraintCounts = cost.constraintCounts := rfl

theorem constraintCounts_addConstraints (s : Store) (p : GenericParameter) (cost : MatchCost) :
    (cost.addConstraints s p).constraintCounts = cost.constraintCounts + p.declaredCounts s := by
  have hsplit : p.constraints.length - (p.constraints.countP fun c => (s.info c).isInterface) =
      p.constraints.countP fun c => !(s.info c).isInterface := by
    have hlength :=
      @List.length_eq_countP_add_countP _ (fun c => (s.info c).isInterface) p.constraints
    simp only [Bool.not_eq_true, Bool.decide_eq_false] at hlength
    omega
  simp only [constraintCounts, addConstraints, GenericParameter.declaredCounts, Prod.mk_add_mk,
    hsplit, Nat.add_assoc]

end MatchCost

namespace Inference

variable {i j k : Inference} {p q : GenericParameter}

theorem owns_of_slot_eq (h : p.slot = q.slot) (i : Inference) : i.owns p = i.owns q := by
  obtain ⟨howner, hposition⟩ := Prod.mk.inj h
  simp only [owns, Slots.owns, howner, hposition]

theorem bound?_of_slot_eq (h : p.slot = q.slot) (i : Inference) : i.bound? p = i.bound? q := by
  obtain ⟨howner, hposition⟩ := Prod.mk.inj h
  simp only [bound?, howner, hposition]

/-- **The slot of a parameter was empty and is filled.** -/
structure Fills (i j : Inference) (p : GenericParameter) : Prop where
  /-- The parameter has a slot. -/
  owns : i.owns p
  /-- It was empty. -/
  empty : i.bound? p = none
  /-- It is filled. -/
  filled : (j.bound? p).isSome

/-- Where nothing happens no slot is filled. -/
theorem not_fills_self (i : Inference) (p : GenericParameter) : ¬ i.Fills i p := by
  intro h
  have hfilled := h.filled
  rw [h.empty] at hfilled
  cases hfilled

namespace Extends

/-- What is empty was empty before. -/
theorem bound?_of_none (h : i.Extends j) (hp : j.bound? p = none) : i.bound? p = none := by
  cases hi : i.bound? p with
  | none => rfl
  | some t => rw [h.bound?_of_some hi] at hp; cases hp

/-- What is filled stays filled. -/
theorem isSome_bound? (h : i.Extends j) (hp : (i.bound? p).isSome) : (j.bound? p).isSome := by
  obtain ⟨t, ht⟩ := Option.isSome_iff_exists.mp hp
  rw [h.bound?_of_some ht]
  rfl

/-- What is bound after all was bound to something with that property before. -/
theorem all {P : TypeId → Prop} (h : i.Extends j) (hj : j.All P) : i.All P :=
  fun p b hp hb => hj p b (h.owns_eq p ▸ hp) (h.bound?_of_some hb)

end Extends

namespace Fills

/-- Parameters of one slot are filled together. -/
theorem of_slot_eq (h : i.Fills j p) (heq : p.slot = q.slot) : i.Fills j q :=
  ⟨owns_of_slot_eq heq i ▸ h.owns, bound?_of_slot_eq heq i ▸ h.empty,
    bound?_of_slot_eq heq j ▸ h.filled⟩

/-- What was counted does not matter. -/
theorem of_slots_eq {j' : Inference} (h : i.Fills j p) (htype : j'.typeSlots = j.typeSlots)
    (hmethod : j'.methodSlots = j.methodSlots) : i.Fills j' p := by
  refine ⟨h.owns, h.empty, ?_⟩
  rw [bound?, htype, hmethod]
  exact h.filled

/-- What is put into an empty slot fills it. -/
theorem of_put {t : TypeId} (hp : i.owns p) (hnone : i.bound? p = none)
    (h : (i.put p t).Extends j) : i.Fills j p := by
  refine ⟨hp, hnone, ?_⟩
  rw [h.bound?_of_some (bound?_put_self t hp)]
  rfl

theorem extend {i' j' : Inference} (h : i.Fills j p) (hi : i'.Extends i) (hj : j.Extends j') :
    i'.Fills j' p :=
  ⟨hi.owns_eq p ▸ h.owns, hi.bound?_of_none h.empty, hj.isSome_bound? h.filled⟩

/-- A slot is filled in one of two steps. -/
theorem or_of_extends (h : i.Fills k p) (hij : i.Extends j) : i.Fills j p ∨ j.Fills k p := by
  cases hj : j.bound? p with
  | none => exact .inr ⟨hij.owns_eq p ▸ h.owns, hj, h.filled⟩
  | some t => exact .inl ⟨h.owns, h.empty, by rw [hj]; rfl⟩

/-- A slot is filled in one step only. -/
theorem slot_ne (h : i.Fills j p) (h' : j.Fills k q) : p.slot ≠ q.slot := by
  intro heq
  have hfilled := h.filled
  rw [bound?_of_slot_eq heq, h'.empty] at hfilled
  cases hfilled

/-- What is put into a slot fills that slot and no other. -/
theorem slot_eq_of_put {t : TypeId} (h : i.Fills (i.put p t) q) (hp : i.owns p) :
    q.slot = p.slot := by
  obtain ⟨b, hb⟩ := Option.isSome_iff_exists.mp h.filled
  rcases bound?_of_put hp h.owns hb with hb | ⟨-, howner, hposition⟩
  · rw [h.empty] at hb
    cases hb
  · exact Prod.ext howner hposition

/-- A slot that something was put into is not filled again. -/
theorem slot_ne_of_put {t : TypeId} (h : (i.put p t).Fills j q) (hp : i.owns p) :
    p.slot ≠ q.slot := by
  intro heq
  have hbound := bound?_put_self t hp
  rw [bound?_of_slot_eq heq, h.empty] at hbound
  cases hbound

end Fills

end Inference

/-- **A slot that a run fills is filled by one of its steps.** -/
theorem Stepwise.exists_fills {β : Type} {step : β → Inference → Inference → Prop} {items : List β}
    {i j : Inference} (h : Stepwise step items i j) (hstep : ∀ b x y, step b x y → x.Extends y)
    {p : GenericParameter} (hp : i.Fills j p) :
    ∃ b ∈ items, ∃ x y, step b x y ∧ i.Extends x ∧ y.Extends j ∧ x.Fills y p := by
  induction h with
  | nil => exact absurd hp (Inference.not_fills_self _ p)
  | @cons b _ i x j hb hrest ih =>
    rcases hp.or_of_extends (hstep _ _ _ hb) with hp | hp
    · exact ⟨b, List.mem_cons_self, i, x, hb, .refl _, hrest.extends hstep, hp⟩
    · obtain ⟨b', hmem, x', y', hb', hx, hy, hp⟩ := ih hp
      exact ⟨b', List.mem_cons_of_mem _ hmem, x', y', hb', (hstep _ _ _ hb).trans hx, hy, hp⟩

/-! ### The tally of a match -/

namespace Store

/-- The matches that are accepted at some depth. -/
def Infers (s : Store) : MatchRelation :=
  fun source v member i j => ∃ depth, matchWithin s depth source v member i = .accepted j

/-- A parameter with these constraints is there. -/
def HasParameter (s : Store) (p : GenericParameter) : Prop :=
  ∃ x, (s.info x).shape = .parameter p

/-- **A slot was filled by a check**: on the way from one inference to another the slot of `q` was
bound, and then the constraints of `q` were checked, which filled the slot of `p`. -/
def FillsByCheck (s : Store) (i j : Inference) (q p : GenericParameter) : Prop :=
  ∃ source x y, i.Extends x ∧ y.Extends j ∧ x.bound? q = none ∧
    Stepwise (ConstraintRule s s.Infers source) q.constraints (x.put q source) y ∧
    (x.put q source).Fills y p

/-- **The tally of a match**: the parameters whose constraints were counted, each of them once.
Slots that are not among theirs were filled by checks. -/
structure Tally (s : Store) (i j : Inference) (counted : List GenericParameter) : Prop where
  /-- The parameters are there. -/
  hasParameter : ∀ p ∈ counted, s.HasParameter p
  /-- Their slots were filled. -/
  fills : ∀ p ∈ counted, i.Fills j p
  /-- No slot is counted twice. -/
  nodup : (counted.map GenericParameter.slot).Nodup
  /-- What they declare was added. -/
  counts_eq : j.cost.constraintCounts =
    i.cost.constraintCounts + (counted.map (GenericParameter.declaredCounts s)).sum
  /-- All other slots were filled by checks. -/
  fills_by_check : ∀ p, i.Fills j p →
    p.slot ∈ counted.map GenericParameter.slot ∨ ∃ q ∈ counted, s.FillsByCheck i j q p

variable {s : Store} {i j k : Inference}

theorem FillsByCheck.extend {q p : GenericParameter} {i' j' : Inference}
    (h : s.FillsByCheck i j q p) (hi : i'.Extends i) (hj : j.Extends j') :
    s.FillsByCheck i' j' q p := by
  obtain ⟨source, x, y, hix, hyj, hrest⟩ := h
  exact ⟨source, x, y, hi.trans hix, hyj.trans hj, hrest⟩

namespace Tally

variable {counted counted' : List GenericParameter}

/-- Nothing was filled. -/
theorem refl (s : Store) (i : Inference) : s.Tally i i [] where
  hasParameter := by simp
  fills := by simp
  nodup := by simp
  counts_eq := by simp
  fills_by_check p hp := absurd hp (Inference.not_fills_self i p)

/-- **One match after another** counts what both of them count. -/
theorem trans (h : s.Tally i j counted) (h' : s.Tally j k counted') (hij : i.Extends j)
    (hjk : j.Extends k) : s.Tally i k (counted ++ counted') where
  hasParameter p hp := (List.mem_append.mp hp).elim (h.hasParameter p) (h'.hasParameter p)
  fills p hp := (List.mem_append.mp hp).elim (fun hp => (h.fills p hp).extend (.refl _) hjk)
    fun hp => (h'.fills p hp).extend hij (.refl _)
  nodup := by
    rw [List.map_append]
    refine h.nodup.append h'.nodup fun x hx hx' => ?_
    obtain ⟨p, hp, rfl⟩ := List.mem_map.mp hx
    obtain ⟨q, hq, heq⟩ := List.mem_map.mp hx'
    exact (h.fills p hp).slot_ne (h'.fills q hq) heq.symm
  counts_eq := by
    rw [h'.counts_eq, h.counts_eq, List.map_append, List.sum_append, add_assoc]
  fills_by_check p hp := by
    rw [List.map_append, List.mem_append]
    rcases hp.or_of_extends hij with hp | hp
    · rcases h.fills_by_check p hp with hmem | ⟨q, hq, hcheck⟩
      · exact .inl (.inl hmem)
      · exact .inr ⟨q, List.mem_append_left _ hq, hcheck.extend (.refl _) hjk⟩
    · rcases h'.fills_by_check p hp with hmem | ⟨q, hq, hcheck⟩
      · exact .inl (.inr hmem)
      · exact .inr ⟨q, List.mem_append_right _ hq, hcheck.extend hij (.refl _)⟩

/-- Steps up the hierarchy count no constraints. -/
theorem mapCost (h : s.Tally i j counted) {change : MatchCost → MatchCost}
    (hchange : ∀ c, (change c).constraintCounts = c.constraintCounts) :
    s.Tally i (j.mapCost change) counted where
  hasParameter := h.hasParameter
  fills p hp := (h.fills p hp).of_slots_eq rfl rfl
  nodup := h.nodup
  counts_eq := (hchange j.cost).trans h.counts_eq
  fills_by_check p hp := by
    rcases h.fills_by_check p (hp.of_slots_eq rfl rfl) with hmem | ⟨q, hq, hcheck⟩
    · exact .inl hmem
    · exact .inr ⟨q, hq, hcheck.extend (.refl _) ((Inference.Extends.refl j).mapCost change)⟩

/-- **A slot that is bound is counted**, and what the check of its constraints fills is not. -/
theorem bound {source member : TypeId} {p : GenericParameter}
    (hp : (s.info member).shape = .parameter p) (ho : i.owns p) (hnone : i.bound? p = none)
    {depth : Nat} (h : Stepwise (ConstraintRule s (matchWithin s depth).Accepts source)
      p.constraints (i.put p source) j) :
    s.Tally i (Inference.mapCost (MatchCost.addConstraints s p) { j with cost := i.cost }) [p] where
  hasParameter q hq := List.mem_singleton.mp hq ▸ ⟨member, hp⟩
  fills q hq := by
    obtain rfl := List.mem_singleton.mp hq
    have hsteps := extends_of_check (fun _ _ _ _ _ h => matchWithin_extends h) h
    exact (Inference.Fills.of_put ho hnone hsteps).of_slots_eq rfl rfl
  nodup := List.nodup_singleton _
  counts_eq := by
    rw [List.map_singleton, List.sum_singleton]
    exact MatchCost.constraintCounts_addConstraints s p i.cost
  fills_by_check q hq := by
    have hfills : i.Fills j q := hq.of_slots_eq rfl rfl
    rcases hfills.or_of_extends (.put source hnone) with hput | hcheck
    · exact .inl (List.mem_singleton.mpr (hput.slot_eq_of_put ho))
    · have hchecked :
          Stepwise (ConstraintRule s s.Infers source) p.constraints (i.put p source) j :=
        h.mono fun _ _ _ _ hc => hc.mono fun _ _ _ _ _ h => ⟨depth, h⟩
      exact .inr ⟨p, List.mem_singleton_self p, source, i, j, .refl i, ⟨.refl _, .refl _⟩, hnone,
        hchecked, hcheck⟩

end Tally

/-- One argument after another. -/
theorem exists_tally_of_stepwise {β : Type} {step : β → Inference → Inference → Prop}
    {items : List β} (h : Stepwise step items i j)
    (hstep : ∀ b x y, step b x y → x.Extends y ∧ ∃ counted, s.Tally x y counted) :
    ∃ counted, s.Tally i j counted := by
  induction h with
  | nil => exact ⟨[], .refl s _⟩
  | cons hb hrest ih =>
    obtain ⟨hext, counted, htally⟩ := hstep _ _ _ hb
    obtain ⟨counted', htally'⟩ := ih
    exact ⟨_, htally.trans htally' hext (hrest.extends fun b x y hxy => (hstep b x y hxy).1)⟩

section Tallies

variable {depth : Nat} {source member : TypeId} {v : Variance}

/-- **Every accepted match has a tally.** -/
theorem exists_tally (h : matchWithin s depth source v member i = .accepted j) :
    ∃ counted, s.Tally i j counted := by
  induction depth generalizing source v member i j with
  | zero => cases h
  | succ depth ih =>
    have hrule : MatchRule s (matchWithin s depth).Accepts source v member i j :=
      matchRule_of_matchStep h
    clear h
    cases hrule with
    | foreign | confirmed | same => exact ⟨[], .refl s i⟩
    | converted _ _ _ _ h | inverted _ _ _ _ h | references _ _ h | reference _ _ h
    | elements _ _ h | widenToNullable _ _ _ _ _ h | narrowFromNullable _ _ _ h => exact ih h
    | bound hp ho hnone _ h => exact ⟨_, .bound hp ho hnone h⟩
    | arguments _ _ _ _ _ h =>
      exact exists_tally_of_stepwise h fun _ _ _ hxy => ⟨matchWithin_extends hxy, ih hxy⟩
    | widenToInterface _ _ h | narrowFromInterface _ _ _ _ h =>
      obtain ⟨counted, htally⟩ := ih h
      exact ⟨counted, htally.mapCost (MatchCost.constraintCounts_addInterfaceStep s _)⟩
    | widenToBase _ _ _ h | narrowFromBase _ _ _ h =>
      obtain ⟨counted, htally⟩ := ih h
      exact ⟨counted, htally.mapCost (MatchCost.constraintCounts_addBaseStep s _)⟩

/-- **A match with an empty slot counts the parameter of that slot alone**, whatever the check of
its constraints fills. -/
theorem tally_of_parameter (h : matchWithin s depth source v member i = .accepted j)
    {p : GenericParameter} (hp : (s.info member).shape = .parameter p) (ho : i.owns p)
    (hnone : i.bound? p = none) : s.Tally i j [p] := by
  cases depth with
  | zero => cases h
  | succ depth =>
    cases (matchRule_of_matchStep h).of_parameter hp with
    | bound _ _ hcheck => exact .bound hp ho hnone hcheck
    | foreign _ hnot => exact absurd (ho.symm.trans hnot) Bool.noConfusion
    | confirmed _ hb | converted _ hb =>
      rw [hnone] at hb
      cases hb

end Tallies

end Store

/-! ### What a match can fill -/

namespace Store

/-- A type mentions a parameter, told by its slot. -/
def MentionsSlot (s : Store) (t : TypeId) (p : GenericParameter) : Prop :=
  ∃ x q, s.Mentions t x ∧ (s.info x).shape = .parameter q ∧ q.slot = p.slot

/-- **Another parameter asks for it**: the slot of another parameter was filled as well, and one of
the constraints of that one mentions it. -/
def AskedFor (s : Store) (i j : Inference) (p : GenericParameter) : Prop :=
  ∃ q, s.HasParameter q ∧ i.Fills j q ∧ q.slot ≠ p.slot ∧ ∃ c ∈ q.constraints, s.MentionsSlot c p

variable {s : Store} {i j : Inference} {p : GenericParameter}

theorem MentionsSlot.imp {t u : TypeId} (h : s.MentionsSlot t p)
    (himp : ∀ x, s.Mentions t x → s.Mentions u x) : s.MentionsSlot u p := by
  obtain ⟨x, q, hx, hq⟩ := h
  exact ⟨x, q, himp x hx, hq⟩

/-- What is clean mentions no parameter with a slot. -/
theorem IsClean.not_mentionsSlot {t : TypeId} (h : s.IsClean i.owns t) (hp : i.owns p) :
    ¬ s.MentionsSlot t p := by
  rintro ⟨x, q, hx, hq, hslot⟩
  rw [← Inference.owns_of_slot_eq hslot, h.avoids x q hx hq] at hp
  cases hp

theorem AskedFor.extend {i' j' : Inference} (h : s.AskedFor i j p) (hi : i'.Extends i)
    (hj : j.Extends j') : s.AskedFor i' j' p := by
  obtain ⟨q, hhas, hfills, hrest⟩ := h
  exact ⟨q, hhas, hfills.extend hi hj, hrest⟩

/-- To mention nothing but what some type mentions is handed on. -/
theorem inherited_mentions (hs : s.WellFormed) (hsc : s.Scoped) (m : TypeId) :
    s.Inherited fun u => ∀ x, s.Mentions u x → s.Mentions m x where
  above hu ht x hx := ht x (hsc _ _ hu x hx)
  root _ _ _ hx := absurd hx (not_mentions_of_plain hs.form_object)
  element he ht x hx := ht x (.part (element_mem_parts (TypeInfo.form_eq_array_iff.mpr he)) hx)
  target he ht x hx := ht x (.part (target_mem_parts (TypeInfo.form_eq_reference_iff.mpr he)) hx)
  argument ha ht x hx := ht x (.part (hs.mem_parts_of_mem_arguments ha) hx)

end Store

/-- **A match fills what is mentioned**: a slot that it fills belongs to a parameter which the
member mentions, or which another parameter asks for. The source and what is bound are clean, so
nothing is filled on their behalf. -/
def FillsMentioned (s : Store) (owns : GenericParameter → Bool) : MatchRelation :=
  fun source _ member i j =>
    i.Extends j ∧ (i.owns = owns → s.IsClean owns source → j.All (s.IsClean owns) →
      ∀ p, i.Fills j p → s.MentionsSlot member p ∨ s.AskedFor i j p)

section Fill

variable {s : Store} {owns : GenericParameter → Bool} {source member : TypeId} {v : Variance}
  {i j : Inference}

/-- A check fills what the constraints mention, or what others ask for. -/
theorem exists_constraint_of_check (hP : s.Inherited (s.IsClean owns)) {cs : List TypeId}
    (h : Stepwise (ConstraintRule s (FillsMentioned s owns) source) cs i j) (howns : i.owns = owns)
    (hsource : s.IsClean owns source) (hj : j.All (s.IsClean owns)) {p : GenericParameter}
    (hp : i.Fills j p) : (∃ c ∈ cs, s.MentionsSlot c p) ∨ s.AskedFor i j p := by
  have hext : ∀ c x y, ConstraintRule s (FillsMentioned s owns) source c x y → x.Extends y :=
    fun c x y hc => (hc.mono fun _ _ _ _ _ h => h.1).extends
  obtain ⟨c, hc, x, y, hrule, hix, hyj, hp⟩ := h.exists_fills hext hp
  have hmentioned : s.MentionsSlot c p ∨ s.AskedFor x y p := by
    have hxowns := (funext hix.owns_eq).trans howns
    cases hrule with
    | interface _ h => exact h.2 hxowns hsource (hyj.all hj) p hp
    | ancestor _ ha h =>
      exact h.2 hxowns (hP.upward (Store.upward_of_mem_ancestors ha) hsource) (hyj.all hj) p hp
  exact hmentioned.imp (fun hm => ⟨c, hc, hm⟩) fun hasked => hasked.extend hix hyj

/-- What is counted afterwards does not matter. -/
theorem FillsMentioned.mapCost {change : MatchCost → MatchCost}
    (h : FillsMentioned s i.owns source v member i j) (hsource : s.IsClean i.owns source)
    (hj : (j.mapCost change).All (s.IsClean i.owns)) {p : GenericParameter}
    (hp : i.Fills (j.mapCost change) p) :
    s.MentionsSlot member p ∨ s.AskedFor i (j.mapCost change) p := by
  have hfills : i.Fills j p := hp.of_slots_eq rfl rfl
  exact (h.2 rfl hsource (hj.of_slots_eq rfl rfl) p hfills).imp_right fun hasked =>
    hasked.extend (.refl i) ((Inference.Extends.refl j).mapCost change)

/-- **Each rule fills what is mentioned.** -/
theorem fillsMentioned_of_rule (hs : s.WellFormed) (hsc : s.Scoped)
    (h : MatchRule s (FillsMentioned s owns) source v member i j) :
    FillsMentioned s owns source v member i j := by
  refine ⟨extends_of_rule (h.mono fun _ _ _ _ _ h => h.1), ?_⟩
  rintro rfl hsource hj p hp
  have hP : s.Inherited (s.IsClean i.owns) := Store.inherited_isClean hs hsc
  have hM := Store.inherited_mentions hs hsc member
  have hself : ∀ x, s.Mentions member x → s.Mentions member x := fun _ hx => hx
  cases h with
  | foreign | confirmed | same => exact absurd hp (Inference.not_fills_self i p)
  | converted _ ho hb _ h | inverted _ ho hb _ h =>
    have hbound := hj _ _ (h.1.owns_eq _ ▸ ho) (h.1.bound?_of_some hb)
    exact (h.2 rfl hsource hj p hp).imp_left fun hm => absurd hm (hbound.not_mentionsSlot hp.owns)
  | @bound _ _ _ q _ j hq ho hnone _ h =>
    have hfills : i.Fills j p := hp.of_slots_eq rfl rfl
    rcases hfills.or_of_extends (.put source hnone) with hput | hcheck
    · exact .inl ⟨member, q, .of_parameter hq, hq, (hput.slot_eq_of_put ho).symm⟩
    -- The slot was filled by the check, so `q` asks for it, or another parameter met there does.
    right
    have howns : (i.put q source).owns = i.owns := funext fun r => Inference.owns_put i q r source
    have hown : i.Fills j q := .of_put ho hnone (extends_of_check (fun _ _ _ _ _ h => h.1) h)
    rcases exists_constraint_of_check hP h howns hsource (hj.of_slots_eq rfl rfl) hcheck with
      ⟨c, hc, hmentions⟩ | hasked
    · exact ⟨q, ⟨member, hq⟩, hown.of_slots_eq rfl rfl, hcheck.slot_ne_of_put ho, c, hc, hmentions⟩
    · exact hasked.extend (.put source hnone) ⟨.refl _, .refl _⟩
  | references hfs hfm h =>
    exact (h.2 rfl (hP.target hfs hsource) hj p hp).imp_left (·.imp (hM.target hfm hself))
  | reference _ hfm h =>
    exact (h.2 rfl hsource hj p hp).imp_left (·.imp (hM.target hfm hself))
  | elements hfs hfm h =>
    exact (h.2 rfl (hP.element hfs hsource) hj p hp).imp_left (·.imp (hM.element hfm hself))
  | arguments _ _ _ _ _ h =>
    obtain ⟨pair, hmem, x, y, hpair, hix, hyj, hp⟩ := h.exists_fills (fun _ _ _ hc => hc.1) hp
    obtain ⟨ha, hb⟩ := List.of_mem_zip hmem
    exact (hpair.2 (funext hix.owns_eq) (hP.argument ha hsource) (hyj.all hj) p hp).imp
      (·.imp (hM.argument hb hself)) (·.extend hix hyj)
  | widenToNullable _ _ hu _ _ h =>
    exact (h.2 rfl hsource hj p hp).imp_left
      (·.imp (hM.argument (Store.nullableUnderlying_mem hu) hself))
  | narrowFromNullable hu _ _ h =>
    exact h.2 rfl (hP.argument (Store.nullableUnderlying_mem hu) hsource) hj p hp
  | widenToInterface _ hf h =>
    exact h.mapCost (hP.upward (Store.upward_of_mem_allInterfaces hf) hsource) hj hp
  | widenToBase _ _ hb h => exact h.mapCost (hP.baseStep hb hsource) hj hp
  | narrowFromInterface _ _ _ hf h =>
    exact (h.mapCost hsource hj hp).imp_left
      (·.imp (hM.upward (Store.upward_of_mem_allInterfaces hf) hself))
  | narrowFromBase _ _ hb h =>
    exact (h.mapCost hsource hj hp).imp_left (·.imp (hM.baseStep hb hself))

/-- **Every accepted match fills what is mentioned.** -/
theorem matchWithin_fillsMentioned (hs : s.WellFormed) (hsc : s.Scoped) {depth : Nat}
    (h : matchWithin s depth source v member i = .accepted j) :
    FillsMentioned s owns source v member i j :=
  matchWithin_induction (fun _ _ _ _ _ h => fillsMentioned_of_rule hs hsc h) h

/-- **A slot that a check filled is asked for.** -/
theorem Store.FillsByCheck.askedFor (hs : s.WellFormed) (hsc : s.Scoped) {q p : GenericParameter}
    (h : s.FillsByCheck i j q p) (hhas : s.HasParameter q) (hq : i.Fills j q)
    (hj : j.All (s.IsClean i.owns)) : s.AskedFor i j p := by
  obtain ⟨source, x, y, hix, hyj, hnone, hcheck, hp⟩ := h
  have hxq : x.owns q := hix.owns_eq q ▸ hq.owns
  have hsteps : (x.put q source).Extends y := by
    refine extends_of_check (fun _ _ _ _ _ h => ?_) hcheck
    obtain ⟨depth, h⟩ := h
    exact matchWithin_extends h
  have hsource : s.IsClean i.owns source := by
    refine hj q source ((hix.trans ?_).owns_eq q ▸ hq.owns) ?_
    · exact (Inference.Extends.put source hnone).trans (hsteps.trans hyj)
    · exact (hsteps.trans hyj).bound?_of_some (Inference.bound?_put_self source hxq)
  have hput : i.Extends (x.put q source) := hix.trans (.put source hnone)
  have hrules : Stepwise (ConstraintRule s (FillsMentioned s i.owns) source) q.constraints
      (x.put q source) y := by
    refine hcheck.mono fun _ _ _ _ hc => hc.mono fun _ _ _ _ _ h => ?_
    obtain ⟨depth, h⟩ := h
    exact matchWithin_fillsMentioned hs hsc h
  rcases exists_constraint_of_check (Store.inherited_isClean hs hsc) hrules (funext hput.owns_eq)
    hsource (hyj.all hj) hp with ⟨c, hc, hmentions⟩ | hasked
  · exact ⟨q, hhas, hq, hp.slot_ne_of_put hxq, c, hc, hmentions⟩
  · exact hasked.extend hput hyj

end Fill

/-! ### The counts of a match -/

/-- **The counts of a match** are those of slots that it filled, each of them once, and every slot
that it filled otherwise was filled by the check of a slot that is counted. What a check fills is
never counted: where the member is a parameter with an empty slot, that one is counted and no other.
Where the source and what was bound mention no parameter with a slot, a slot that is not counted is
asked for by the constraint of another parameter whose slot was filled. -/
theorem constraintCounts_of_matches {s : Store} {depth : Nat} {source member : TypeId}
    {v : Variance} {i j : Inference} (h : s.matches depth source v member i = some j) :
    ∃ counted : List GenericParameter, s.Tally i j counted ∧
      (∀ p, (s.info member).shape = .parameter p → i.owns p → i.bound? p = none → counted = [p]) ∧
      ∀ allowed, s.Reachable allowed → s.Scoped → s.IsClean i.owns source →
        i.All (s.IsClean i.owns) → ∀ p, i.Fills j p →
          p.slot ∈ counted.map GenericParameter.slot ∨ s.AskedFor i j p := by
  rw [matches_eq_some_iff] at h
  obtain ⟨counted, htally, hparameter⟩ : ∃ counted, s.Tally i j counted ∧
      ∀ p, (s.info member).shape = .parameter p → i.owns p → i.bound? p = none → counted = [p] := by
    by_cases hempty : ∃ p, (s.info member).shape = .parameter p ∧ i.owns p ∧ i.bound? p = none
    · obtain ⟨p, hp, ho, hnone⟩ := hempty
      refine ⟨[p], Store.tally_of_parameter h hp ho hnone, fun q hq _ _ => ?_⟩
      rw [Shape.parameter.inj (hp.symm.trans hq)]
    · obtain ⟨counted, htally⟩ := Store.exists_tally h
      exact ⟨counted, htally, fun p hp ho hnone => absurd ⟨p, hp, ho, hnone⟩ hempty⟩
  refine ⟨counted, htally, hparameter, fun allowed hreach hsc hsource hi p hp => ?_⟩
  have hs := hreach.wellFormed
  have hj := matchWithin_inherits (Store.inherited_isClean hs hsc) h hsource hi
  refine (htally.fills_by_check p hp).imp_right ?_
  rintro ⟨q, hq, hcheck⟩
  exact hcheck.askedFor hs hsc (htally.hasParameter q hq) (htally.fills q hq) hj

/-- A run that makes keys, which can be compared with texts, and tables of two parameters: the first
one can be compared with the second one, and the second one stands for a reference type. -/
def tableRun : List Operation :=
  [.define "Key" .classKind [], .addInterface ⟨27⟩ ⟨23⟩, .define "Table" .classKind ["T", "U"],
    .construct Core.equatable [⟨30⟩], .constrain ⟨29⟩ Flags.none [⟨31⟩],
    .constrain ⟨30⟩ Flags.reference []]

/-- Both parameters of tables have empty slots. -/
def tableSlots : Inference :=
  { typeSlots := Slots.ofArity (.type ⟨28⟩) 2 }

/-- The first parameter of tables. -/
def keyParameter : GenericParameter :=
  { owner := .type ⟨28⟩, position := 0, constraints := [⟨31⟩] }

/-- The second parameter of tables. -/
def entryParameter : GenericParameter :=
  { owner := .type ⟨28⟩, position := 1, flags := Flags.reference }

/-- A key flows into the first parameter, and both slots are filled. -/
theorem matches_table : ∃ j, (Store.initial.afterAll tableRun).matches 40 ⟨27⟩ .contravariant
    ⟨29⟩ tableSlots = some j ∧ j.cost.constraintCounts = (0, 1, 0) ∧
      tableSlots.Fills j keyParameter ∧ tableSlots.Fills j entryParameter := by
  have hrun : ((Store.initial.afterAll tableRun).matches 40 ⟨27⟩ .contravariant ⟨29⟩
      tableSlots).any (fun j => j.cost.constraintCounts = (0, 1, 0) ∧
        (j.bound? keyParameter).isSome ∧ (j.bound? entryParameter).isSome) := by decide +kernel
  obtain ⟨j, hj, htest⟩ := (Option.any_eq_true _ _).mp hrun
  obtain ⟨hcounts, hkey, hentry⟩ := of_decide_eq_true htest
  exact ⟨j, hj, hcounts, ⟨by decide, by decide, hkey⟩, ⟨by decide, by decide, hentry⟩⟩

theorem reachable_tableRun :
    (Store.initial.afterAll tableRun).Reachable fun s op => op.Scoped s :=
  .of_scopedRun (by decide +kernel)

/-- When a key is matched the first parameter alone is counted. The second one is asked for: the
first one can be compared with it. -/
theorem constraintCounts_of_matches_table : ∃ j,
    (Store.initial.afterAll tableRun).matches 40 ⟨27⟩ .contravariant ⟨29⟩ tableSlots = some j ∧
      (Store.initial.afterAll tableRun).Tally tableSlots j [keyParameter] ∧
      tableSlots.Fills j entryParameter ∧
      (Store.initial.afterAll tableRun).AskedFor tableSlots j entryParameter := by
  obtain ⟨j, hj, -, hkey, hentry⟩ := matches_table
  obtain ⟨counted, htally, hparameter, hasked⟩ := constraintCounts_of_matches hj
  have hs := reachable_tableRun.wellFormed.toFormed
  have hsize : (Store.initial.afterAll tableRun).size = 32 := by decide +kernel
  have hholds := Store.holds_of_size_eq hsize (t := ⟨27⟩) (by decide)
  have hshape : ((Store.initial.afterAll tableRun).info ⟨29⟩).shape = .parameter keyParameter := by
    decide +kernel
  obtain rfl := hparameter keyParameter hshape hkey.owns hkey.empty
  refine ⟨j, hj, htally, hentry, (hasked _ reachable_tableRun reachable_tableRun.scoped_store
    (.of_not_isOpen hs hholds (by decide +kernel)) ?_ entryParameter hentry).resolve_left ?_⟩
  · exact .of_unbound (Slots.get?_ofArity _ _) Slots.get?_empty
  · decide

/-- **What a check fills is not counted.** A key is matched with the first parameter, and the check
finds the texts for the second one. Both slots are filled, but the second parameter stands for a
reference type and that is missing from the counts. -/
theorem checked_slot_not_counted :
    ((Store.initial.afterAll tableRun).Reachable fun s op => op.Scoped s) ∧
    (Store.initial.afterAll tableRun).HasParameter keyParameter ∧
    (Store.initial.afterAll tableRun).HasParameter entryParameter ∧
    ∃ j, (Store.initial.afterAll tableRun).matches 40 ⟨27⟩ .contravariant ⟨29⟩ tableSlots = some j ∧
      (∀ p, tableSlots.Fills j p ↔ p.slot = keyParameter.slot ∨ p.slot = entryParameter.slot) ∧
      j.cost.constraintCounts ≠ tableSlots.cost.constraintCounts +
        (keyParameter.declaredCounts (Store.initial.afterAll tableRun) +
          entryParameter.declaredCounts (Store.initial.afterAll tableRun)) := by
  refine ⟨reachable_tableRun, ⟨⟨29⟩, by decide +kernel⟩, ⟨⟨30⟩, by decide +kernel⟩, ?_⟩
  obtain ⟨j, hj, hcounts, hkey, hentry⟩ := matches_table
  refine ⟨j, hj, fun p => ⟨fun hp => ?_, ?_⟩, ?_⟩
  · have howns := hp.owns
    cases howner : p.owner with
    | type d =>
      simp only [Inference.owns, howner, Slots.owns, Bool.and_eq_true, decide_eq_true_eq] at howns
      obtain ⟨heq, hlt⟩ := howns
      have hslot : p.slot = (.type ⟨28⟩, p.position) :=
        Prod.ext (howner.trans (Option.some.inj heq).symm) rfl
      have hlt : p.position < 2 := hlt
      rw [hslot]
      obtain hzero | hone : p.position = 0 ∨ p.position = 1 := by omega
      · exact .inl (by rw [hzero]; rfl)
      · exact .inr (by rw [hone]; rfl)
    | method m =>
      simp only [Inference.owns, howner, Slots.owns, Bool.and_eq_true, decide_eq_true_eq] at howns
      cases howns.1
  · rintro (heq | heq)
    · exact hkey.of_slot_eq heq.symm
    · exact hentry.of_slot_eq heq.symm
  · rw [hcounts]
    decide +kernel

end CallSite
