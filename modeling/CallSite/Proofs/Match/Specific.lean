import CallSite.Proofs.Call.Conversion
import CallSite.Proofs.Match.Assignable

/-!
# The more specific of two members

Where a source flows into two members, what is counted says which of them is nearer to it. A member
that flows into another one, and not the other way round, is met first on the climb, so fewer steps
to bases are counted for it (`Store.conversions_lt_of_moreSpecific`). This leaves out two kinds of
members: an interface is reached without any step to a base, whichever of the bases has it, and the
step to a nullable type is not counted at all. Between these and another member the counters say
nothing, unless the other member is the source itself.
-/

namespace CallSite

namespace Store

variable {s : Store} {source p q : TypeId}

/-! ### Conversions -/

/-- **A member that mentions no generic parameter and has no reference among its parts.** -/
structure Plain (s : Store) (m : TypeId) : Prop where
  /-- It has no reference. -/
  noReference : s.NoReference m
  /-- It mentions no parameter. -/
  closed : ∀ q, ¬ s.Mentions m q

theorem Plain.not_isParameter (h : s.Plain p) : (s.info p).isParameter = false := by
  cases hshape : (s.info p).shape with
  | parameter g => exact absurd (.of_parameter hshape) (h.closed p)
  | classType | interfaceType | structType | arrayType | byRefType =>
    rw [TypeInfo.isParameter, hshape]

/-- No slot is met on the way to it. -/
theorem Plain.foreign (h : s.Plain p) (i : Inference) : i.Foreign s p :=
  fun q _ hq => absurd hq (h.closed q)

/-- A type without parts is plain, if it is neither a parameter nor a reference. -/
theorem Plain.of_leaf (hs : s.Formed) (hheld : s.Holds p) (hopen : s.isOpen p = false)
    (hbyRef : (s.info p).isByRef = false) (hparts : s.parts p = []) : s.Plain p := by
  refine ⟨.intro hbyRef fun u hu => ?_, hs.not_mentions_of_not_isOpen hheld hopen⟩
  rw [hparts] at hu
  cases hu

/-- A member that no type of the lineage reaches accepts nothing of it. -/
theorem Plain.not_accepts (h : s.Plain p) (hs : s.WellFormed)
    (hobject : (s.info Core.object).base = none) (hsource : s.Holds source)
    (hnot : ∀ c ∈ s.lineage source, ¬ s.Reaches c p) : ¬ s.Accepts source .contravariant p := by
  rintro ⟨depth, j, hj⟩
  obtain ⟨-, hwalks⟩ := matchWithin_walks hs.toFormed (matches_eq_some_iff.mp hj) (h.foreign _)
    (nomatch ·)
  obtain ⟨c, hwalk, hc⟩ := (hwalks h.noReference).2 rfl h.not_isParameter
  exact hnot c (s.mem_lineage_of_walk hs hobject hsource hwalk) hc

/-- **A source is converted to a member at a cost**: the steps of the climb to it. -/
def Converts (s : Store) (source m : TypeId) (cost : MatchCost) : Prop :=
  ∃ steps c, s.Climbs m source steps c ∧ cost = s.assignCost steps c m

theorem Converts.free {cost : MatchCost} (h : s.Converts source p cost) :
    cost.typeConstraints = 0 ∧ cost.interfaceConstraints = 0 ∧ cost.constructorConstraints = 0 := by
  obtain ⟨steps, c, -, rfl⟩ := h
  exact ⟨rfl, rfl, rfl⟩

/-- **What is accepted is converted**, whatever is inferred elsewhere. -/
theorem Plain.converts (h : s.Plain p) (hs : s.WellFormed) {depth : Nat} {i j : Inference}
    (hmatch : s.matches depth source .contravariant p i = some j) :
    ∃ cost, s.Converts source p cost ∧ j = { i with cost := i.cost + cost } := by
  obtain ⟨steps, c, hclimbs, rfl⟩ :=
    exists_climbs_of_matches hs h.not_isParameter h.noReference (h.foreign i) hmatch
  exact ⟨_, ⟨steps, c, hclimbs, rfl⟩, rfl⟩

/-- What is climbed to is accepted. -/
theorem Plain.accepts_of_climbs (h : s.Plain p) (hs : s.WellFormed) {steps : List TypeId}
    {c : TypeId} (hclimbs : s.Climbs p source steps c) : s.Accepts source .contravariant p :=
  ⟨_, _, matches_eq_some_iff.mpr (matchWithin_of_climbs hs h.not_isParameter h.noReference
    (h.foreign {}) (Nat.lt_succ_self (s.height p)) hclimbs)⟩

/-- A source is converted to itself at no cost. -/
theorem Converts.self {cost : MatchCost} (h : s.Converts source source cost) :
    cost.conversions = 0 := by
  obtain ⟨steps, c, hclimbs, rfl⟩ := h
  cases hclimbs with
  | step hnot => exact absurd (.self rfl) hnot
  | done =>
    have hself : ¬ s.ReachesByInterface source source := fun h => h.1 rfl
    simp only [MatchCost.conversions, assignCost, hself, false_and, MatchCost.one, decide_false]
    rfl

/-- **A conversion to anything but the source and its nullable type counts.** -/
theorem Converts.pos {cost : MatchCost} (h : s.Converts source q cost) (hne : q ≠ source)
    (hnullable : s.nullableUnderlying q ≠ some source) : 0 < cost.conversions := by
  obtain ⟨steps, c, hclimbs, rfl⟩ := h
  cases hclimbs with
  | step => exact MatchCost.conversions_lt_of_totalTypes (a := {}) (Nat.succ_pos _)
  | done hreaches =>
    cases hreaches with
    | self h => exact absurd h.symm hne
    | nullable h => exact absurd h hnullable
    | interface hinterface hmem =>
      have hby : s.ReachesByInterface source q := ⟨Ne.symm hne, hinterface, hmem⟩
      refine Prod.Lex.toLex_lt_toLex.mpr (.inr ⟨rfl, Prod.Lex.toLex_lt_toLex.mpr (.inr ⟨rfl,
        Prod.Lex.toLex_lt_toLex.mpr (.inl ?_)⟩)⟩)
      simp [assignCost, hby, MatchCost.one]

/-! ### The nearer member -/

/-- **A member that does not flow back is met first**: the climb to the one that takes it is longer,
if that is neither an interface nor nullable. -/
theorem Climbs.length_lt {steps steps' : List TypeId} {c c' : TypeId}
    (h' : s.Climbs q source steps' c') (h : s.Climbs p source steps c) (hq : c' = q)
    (hnot : ∀ steps c, ¬ s.Climbs p q steps c) : steps.length < steps'.length := by
  induction h' generalizing steps with
  | done =>
    subst hq
    exact absurd h (hnot _ _)
  | step _ hstep _ ih =>
    cases h with
    | done => exact Nat.succ_pos _
    | step _ hstep' h =>
      obtain rfl := Option.some.inj (hstep.symm.trans hstep')
      exact Nat.succ_lt_succ (ih h hq)

/-- **A member is more specific than another for a source**: it is the source, and the other one is
neither that nor its nullable type; or it flows into the other one and not the other way round, and
the other one is neither an interface nor nullable. -/
inductive MoreSpecific (s : Store) (source p q : TypeId) : Prop
  /-- It is the source. -/
  | exact : p = source → q ≠ source → s.nullableUnderlying q ≠ some source →
      MoreSpecific s source p q
  /-- It flows into the other one. -/
  | base : (s.info q).isInterface = false → s.nullableUnderlying q = none →
      s.Accepts p .contravariant q → ¬ s.Accepts q .contravariant p → MoreSpecific s source p q

/-- A member is as specific as another for a source. -/
def AsSpecific (s : Store) (source p q : TypeId) : Prop :=
  p = q ∨ p = source ∨ s.MoreSpecific source p q

/-- There is one climb to the first type that reaches a member. -/
theorem Climbs.unique {steps steps' : List TypeId} {c c' : TypeId} (h : s.Climbs p source steps c)
    (h' : s.Climbs p source steps' c') : steps = steps' ∧ c = c' := by
  induction h generalizing steps' with
  | done hc =>
    cases h' with
    | done => exact ⟨rfl, rfl⟩
    | step hnot => exact absurd hc hnot
  | step hnot hstep _ ih =>
    cases h' with
    | done hc => exact absurd hc hnot
    | step _ hstep' h' =>
      obtain rfl := Option.some.inj (hstep.symm.trans hstep')
      obtain ⟨rfl, rfl⟩ := ih h'
      exact ⟨rfl, rfl⟩

section Costs

variable {cost cost' : MatchCost} (h : s.Converts source p cost) (h' : s.Converts source q cost')

include h h'

/-- **A conversion to a more specific member weighs less.** -/
theorem conversions_lt_of_moreSpecific (hs : s.WellFormed) (hp : s.Plain p)
    (hspecific : s.MoreSpecific source p q) : cost.conversions < cost'.conversions := by
  cases hspecific with
  | exact heq hne hnullable =>
    subst heq
    rw [h.self]
    exact h'.pos hne hnullable
  | base hinterface hnullable _ hnot =>
    obtain ⟨steps, c, hclimbs, rfl⟩ := h
    obtain ⟨steps', c', hclimbs', rfl⟩ := h'
    refine MatchCost.conversions_lt_of_totalTypes (hclimbs'.length_lt hclimbs ?_
      fun _ _ hback => hnot (hp.accepts_of_climbs hs hback))
    cases hclimbs'.reaches with
    | self h => exact h
    | interface h =>
      rw [hinterface] at h
      cases h
    | nullable h =>
      rw [hnullable] at h
      cases h

/-- A conversion to a member that is as specific weighs no more. -/
theorem conversions_le_of_asSpecific (hs : s.WellFormed) (hp : s.Plain p)
    (hspecific : s.AsSpecific source p q) : cost.conversions ≤ cost'.conversions := by
  rcases hspecific with rfl | rfl | hspecific
  · obtain ⟨steps, c, hclimbs, rfl⟩ := h
    obtain ⟨steps', c', hclimbs', rfl⟩ := h'
    obtain ⟨rfl, rfl⟩ := hclimbs.unique hclimbs'
    exact le_refl _
  · rw [h.self]
    exact (bot_le : (⊥ : Conversions) ≤ _)
  · exact le_of_lt (conversions_lt_of_moreSpecific h h' hs hp hspecific)

end Costs

/-! ### All arguments of a call -/

/-- **Each source is converted to the member of its place**, at the cost of that place. -/
inductive ConvertsAll (s : Store) : List TypeId → List TypeId → List MatchCost → Prop
  /-- Nothing is converted. -/
  | nil : ConvertsAll s [] [] []
  /-- One more source is. -/
  | cons {source m : TypeId} {cost : MatchCost} {sources ms : List TypeId}
      {costs : List MatchCost} :
      s.Converts source m cost → ConvertsAll s sources ms costs →
      ConvertsAll s (source :: sources) (m :: ms) (cost :: costs)

section All

variable {sources ps qs : List TypeId} {costs costs' : List MatchCost}

theorem ConvertsAll.length_eq (h : s.ConvertsAll sources ps costs) :
    costs.length = sources.length := by
  induction h with
  | nil => rfl
  | cons _ _ ih => exact congrArg Nat.succ ih

theorem ConvertsAll.free (h : s.ConvertsAll sources ps costs) : ∀ c ∈ costs,
    c.typeConstraints = 0 ∧ c.interfaceConstraints = 0 ∧ c.constructorConstraints = 0 := by
  induction h with
  | nil => rintro c ⟨⟩
  | cons hcost _ ih =>
    intro c hc
    rcases List.mem_cons.mp hc with rfl | hc
    · exact hcost.free
    · exact ih c hc

/-- A relation between a source and two members holds at each place of a call. -/
def AtEach (R : TypeId → TypeId → TypeId → Prop) (sources ps qs : List TypeId) : Prop :=
  ∀ (k : Nat) (source p q : TypeId), sources[k]? = some source → ps[k]? = some p →
    qs[k]? = some q → R source p q

/-- A relation between a source and two members holds at some place of a call. -/
def AtSome (R : TypeId → TypeId → TypeId → Prop) (sources ps qs : List TypeId) : Prop :=
  ∃ (k : Nat) (source p q : TypeId), sources[k]? = some source ∧ ps[k]? = some p ∧
    qs[k]? = some q ∧ R source p q

/-- **What holds of the conversions of each argument holds of their sums.** -/
theorem sum_conversions (hs : s.WellFormed) (hp : ∀ p ∈ ps, s.Plain p)
    (h : s.ConvertsAll sources ps costs) (h' : s.ConvertsAll sources qs costs')
    (hspecific : AtEach s.AsSpecific sources ps qs) :
    (costs.map MatchCost.conversions).sum ≤ (costs'.map MatchCost.conversions).sum ∧
      (AtSome s.MoreSpecific sources ps qs →
        (costs.map MatchCost.conversions).sum < (costs'.map MatchCost.conversions).sum) := by
  induction h generalizing qs costs' with
  | nil =>
    cases h'
    exact ⟨le_refl _, fun ⟨_, _, _, _, hk, _⟩ => nomatch hk⟩
  | @cons source p cost sources ps costs hcost _ ih =>
    cases h' with
    | @cons _ q cost' _ qs costs' hcost' h' =>
    obtain ⟨hle, hlt⟩ := ih (fun p hp' => hp p (List.mem_cons_of_mem _ hp')) h'
      fun k => hspecific (k + 1)
    have hfirst := conversions_le_of_asSpecific hcost hcost' hs (hp p List.mem_cons_self)
      (hspecific 0 source p q rfl rfl rfl)
    simp only [List.map_cons, List.sum_cons]
    refine ⟨add_le_add hfirst hle, ?_⟩
    rintro ⟨k, source', p', q', hsource, hp', hq', hmore⟩
    cases k with
    | zero =>
      obtain rfl := Option.some.inj hsource
      obtain rfl := Option.some.inj hp'
      obtain rfl := Option.some.inj hq'
      exact add_lt_add_of_lt_of_le (conversions_lt_of_moreSpecific hcost hcost' hs
        (hp _ List.mem_cons_self) hmore) hle
    | succ k => exact add_lt_add_of_le_of_lt hfirst (hlt ⟨k, _, _, _, hsource, hp', hq', hmore⟩)

end All

end Store

end CallSite
