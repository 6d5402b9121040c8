import CallSite.Proofs.Match.Assignable
import CallSite.Proofs.Match.Inherit

/-!
# Walks up the hierarchy

A type **walks** to what a chain of steps to bases leads to, with the step from an interface to the
root as the last one (`Store.Walk`). Each type has at most one such step, so what a type walks to
stands in one line. Without slots a source flows into a member exactly where it walks to a type that
reaches the member (`Store.exists_walk_of_matches`, `Store.exists_matches_of_walk`).

This needs that the search for a way up never opens a reference (`Store.ReferencesOutside`): then no
type on the way is one, nor has one among its parts (`Store.ReferencesOutside.noReference`).
-/

namespace CallSite

namespace Store

variable {s : Store}

/-! ### References stand outside -/

/-- **References stand outside hierarchies and parts**: no base, interface, element of an array or
argument is a reference. -/
structure ReferencesOutside (s : Store) : Prop where
  /-- Bases and interfaces are no references. -/
  above : ∀ {t u}, u ∈ (s.info t).above → (s.info u).isByRef = false
  /-- Elements of arrays are no references. -/
  element : ∀ {t e rank}, (s.info t).shape = .arrayType e rank → (s.info e).isByRef = false
  /-- Arguments are no references. -/
  argument : ∀ {t a}, a ∈ (s.info t).arguments → (s.info a).isByRef = false

namespace ReferencesOutside

variable (href : s.ReferencesOutside)

include href

/-- The parts of what is no reference are none. -/
theorem part {t u : TypeId} (ht : (s.info t).isByRef = false) (hu : u ∈ s.parts t) :
    (s.info u).isByRef = false := by
  cases hf : s.form t with
  | named shape d arguments =>
    rw [parts, hf] at hu
    exact href.argument (s.arguments_of_named hf ▸ hu)
  | array e rank =>
    rw [parts, hf] at hu
    obtain rfl := List.mem_singleton.mp hu
    exact href.element (TypeInfo.form_eq_array_iff.mp hf)
  | reference e =>
    exact absurd (TypeInfo.form_eq_reference_iff.mp hf) (TypeInfo.shape_ne_reference ht)
  | parameter o k =>
    rw [parts, hf] at hu
    cases hu

/-- **What is no reference has none inside.** -/
theorem noReference (hs : s.Formed) {t : TypeId} (ht : (s.info t).isByRef = false) :
    s.NoReference t := by
  induction t using hs.induction with
  | step t ih => exact .intro ht fun u hu => ih u hu (href.part ht hu)

/-- To be held and no reference is handed on by every step of a match. -/
theorem inherited (hs : s.WellFormed) :
    s.Inherited fun t => s.Holds t ∧ (s.info t).isByRef = false where
  above hu _ := ⟨hs.holds_above hu, href.above hu⟩
  root _ _ := ⟨Nat.lt_trans (by decide) hs.core_lt_size,
    (TypeInfo.plain_of_form_eq_named hs.form_object).2⟩
  element he _ := ⟨hs.holds_part (element_mem_parts (TypeInfo.form_eq_array_iff.mpr he)),
    href.element he⟩
  target he ht := by
    exact absurd he (TypeInfo.shape_ne_reference ht.2)
  argument ha _ := ⟨hs.holds_part (hs.mem_parts_of_mem_arguments ha), href.argument ha⟩

end ReferencesOutside

/-- Where no type is a reference, none stands inside. -/
theorem referencesOutside_of_none (h : ∀ i < s.size, (s.info ⟨i⟩).isByRef = false) :
    s.ReferencesOutside := by
  have hnone : ∀ t, (s.info t).isByRef = false := by
    intro t
    by_cases ht : s.Holds t
    · exact h t.index ht
    · rw [info_of_not_holds ht]
      rfl
  exact ⟨fun _ => hnone _, fun _ => hnone _, fun _ => hnone _⟩

/-! ### Walks -/

/-- **A type walks to another** by steps to bases. -/
def Walk (s : Store) : TypeId → TypeId → Prop :=
  Relation.ReflTransGen fun t b => baseStep s t = some b

theorem walk_of_bases {t u : TypeId} (h : Relation.ReflTransGen s.BaseOf t u) : s.Walk t u :=
  h.lift id fun _ _ => baseStep_of_baseOf

/-- A walk that does not end at once goes on from the one base. -/
theorem Walk.cases_step {t b u : TypeId} (h : s.Walk t u) (hb : baseStep s t = some b) :
    u = t ∨ s.Walk b u := by
  rcases h.cases_head with rfl | ⟨c, hc, hrest⟩
  · exact .inl rfl
  · obtain rfl := Option.some.inj (hb.symm.trans hc)
    exact .inr hrest

theorem Walk.eq_of_no_step {t u : TypeId} (h : s.Walk t u) (hb : baseStep s t = none) : u = t := by
  rcases h.cases_head with rfl | ⟨c, hc, -⟩
  · rfl
  · rw [hb] at hc
    cases hc

/-- Only held types have a step to a base. -/
theorem holds_of_baseStep {t b : TypeId} (h : baseStep s t = some b) : s.Holds t := by
  by_contra ht
  rw [baseStep, info_of_not_holds ht] at h
  cases h

/-- A step to another type than the root is a step to the base. -/
theorem baseOf_of_baseStep {t b : TypeId} (h : baseStep s t = some b) (hne : b ≠ Core.object) :
    s.BaseOf t b := by
  unfold baseStep at h
  split at h
  case h_1 c hc =>
    cases h
    exact hc
  case h_2 =>
    split at h
    · cases h
      exact absurd rfl hne
    · cases h

/-! ### Where a walk ends -/

section Acyclic

variable (hs : s.WellFormed) (hobject : (s.info Core.object).base = none)

include hs hobject

/-- A walk to a type that has a step of its own does not end at the root, so it is a chain of
bases. -/
theorem bases_of_walk_of_step {t u v : TypeId}
    (h : Relation.TransGen (fun t b => baseStep s t = some b) t u) (hv : baseStep s u = some v) :
    Relation.TransGen s.BaseOf t u := by
  have hne : ∀ {u v}, baseStep s u = some v → u ≠ Core.object := by
    rintro u v hv rfl
    rw [baseStep_object hs hobject] at hv
    cases hv
  induction h generalizing v with
  | single hstep => exact .single (baseOf_of_baseStep hstep (hne hv))
  | tail _ hstep ih => exact (ih hstep).tail (baseOf_of_baseStep hstep (hne hv))

/-- **Without cycles the lineage of a type ends** with a type that has no step to a base. -/
theorem baseStep_getLast?_lineage (hacyclic : ∀ t, ¬ Relation.TransGen s.BaseOf t t)
    {t last : TypeId} (ht : s.Holds t) (hlast : last ∈ (s.lineage t).getLast?) :
    baseStep s last = none := by
  cases hstep : baseStep s last with
  | none => rfl
  | some b =>
    have hmem := s.baseStep_mem_lineage hs hobject ht (List.mem_of_mem_getLast? hlast) hstep
    obtain ⟨before, after, hsplit⟩ := List.append_of_mem hmem
    have hchain := s.isChain_lineage hobject t
    rw [hsplit] at hchain hlast
    rw [List.getLast?_append_of_ne_nil _ (List.cons_ne_nil b after)] at hlast
    have hwalk := List.relationReflTransGen_of_exists_isChain_cons after
      (List.isChain_append.mp hchain).2.1 (List.getLast_of_mem_getLast? hlast)
    exact absurd (bases_of_walk_of_step hs hobject (.head' hstep hwalk) hstep) (hacyclic last)

end Acyclic

/-! ### Matches are walks -/

section Matches

variable (hs : s.WellFormed) (href : s.ReferencesOutside) {source m : TypeId}
  (hparam : (s.info m).isParameter = false) (hmref : (s.info m).isByRef = false)

include hs href hparam hmref

/-- A source that flows into a member walks to a type that reaches it. -/
theorem exists_walk_of_matches {depth : Nat} {cost : MatchCost} {j : Inference}
    (h : s.matches depth source .contravariant m { cost := cost } = some j) :
    ∃ c, s.Walk source c ∧ s.Reaches c m :=
  ((matchWithin_walks hs.toFormed (matches_eq_some_iff.mp h) (.of_empty s cost m) (by decide)).2
    (href.noReference hs.toFormed hmref)).2 rfl hparam

/-- **A source flows into a member where it walks to a type that reaches it**, at every depth that
leaves room for the walk. -/
theorem exists_matches_of_walk (hobject : (s.info Core.object).base = none)
    (hsource : s.Holds source) (hm : s.Holds m) {c : TypeId} (hwalk : s.Walk source c)
    (hc : s.Reaches c m) (cost : MatchCost) {depth : Nat} (hdepth : 2 * s.size + 4 ≤ depth) :
    ∃ j, s.matches depth source .contravariant m { cost := cost } = some j := by
  obtain ⟨before, c, after, hlineage, hbefore, hc⟩ :=
    s.exists_first_reaching ⟨c, s.mem_lineage_of_walk hs hobject hsource hwalk, hc⟩
  exact ⟨_, matches_eq_some_iff.mpr (matchWithin_of_lineage hs hobject hm hparam
    (href.noReference hs.toFormed hmref) hdepth cost hlineage hbefore hc)⟩

end Matches

end Store

end CallSite
