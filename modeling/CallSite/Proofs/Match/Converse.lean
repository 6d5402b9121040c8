import CallSite.Proofs.Match.Walk
import CallSite.Proofs.Type.Check

/-!
# Covariance is the converse of contravariance

A covariant match takes the member upwards where a contravariant one takes the source upwards, so
that a match in one direction should be the other one read backwards. Without slots this is so:
level by level the two ask the same questions and count the same steps
(`matchWithin_converse_succ`), and along a chain of bases that comes to an end they end alike
(`endAlike_of_isChain`).

There is one exception. A parameter is matched as a member before anything above it is looked at,
but as a source it is left like any other type. So the two directions part where a chain of bases
leads through a parameter and beyond it (`contravariant_passes_parameter`), and this is all that has
to be excluded (`search_converse`).
-/

namespace CallSite

/-! ### Attempts that are refused alike -/

/-- Two attempts with the same first way are the same if their second ways are, once the first one
is refused. -/
theorem Attempt.orElse_congr {α : Type} {a : Attempt α} {f g : Unit → Attempt α}
    (h : a = .refused → f () = g ()) : a.orElse f = a.orElse g := by
  cases a with
  | refused => exact h rfl
  | accepted | unfinished => rfl

theorem Attempt.guard_eq_refused_iff {α : Type} {condition : Bool} {result : α} :
    guard condition result = .refused ↔ condition = false := by
  cases condition <;> simp [guard]

/-! ### One level of a covariant match -/

section Level

variable {s : Store} {depth : Nat} {source member : TypeId} {i : Inference}

theorem narrowFromInterface_of_invariant
    (hinvariant : ∀ f ∈ s.allInterfaces member, matchWithin s depth source .invariant f i =
      .guard (source = f) i) :
    narrowFromInterface s (matchWithin s depth) source member i =
      .guard ((s.info source).isInterface && source ∈ s.allInterfaces member)
        { i with cost := i.cost.addInterfaceStep s source } := by
  unfold narrowFromInterface
  cases (s.info source).isInterface with
  | false => rfl
  | true =>
    rw [if_pos rfl, Bool.true_and]
    refine any_interfaces_eq_guard fun f hf => (hinvariant f hf).trans ?_
    simp only [eq_comm]

theorem narrowFromNullable_of_invariant
    (hinvariant : ∀ u, matchWithin s depth u .invariant member i = .guard (u = member) i) :
    narrowFromNullable s (matchWithin s depth) source member i =
      .guard (s.nullableUnderlying source = some member && (s.info member).isValueType &&
        (s.nullableUnderlying member).isNone) i := by
  unfold narrowFromNullable
  cases s.nullableUnderlying source with
  | none => rfl
  | some u =>
    dsimp only
    rw [hinvariant u, Attempt.guard, Attempt.guard]
    by_cases heq : u = member <;> simp [heq]

end Level

section Level

variable {s : Store} {depth : Nat} {source member : TypeId} {cost : MatchCost}

/-- Without slots an invariant match against a type that is held and no reference is a comparison,
at every depth beyond the size of the store. -/
theorem matchWithin_invariant_of_holds (hs : s.WellFormed) (href : s.ReferencesOutside)
    (hm : s.Holds member) (hmref : (s.info member).isByRef = false) (hdepth : s.size < depth) :
    matchWithin s depth source .invariant member { cost := cost } =
      .guard (source = member) { cost := cost } :=
  matchWithin_invariant hs.toFormed (href.noReference hs.toFormed hmref) (.of_empty s cost member)
    (Nat.lt_of_le_of_lt (Nat.le_trans (s.height_le member) hm) hdepth)

/-- What is tried before the step to a base, when the member is taken upwards. -/
theorem narrow_eq (hs : s.WellFormed) (href : s.ReferencesOutside) (hm : s.Holds member)
    (hmref : (s.info member).isByRef = false) (hdepth : s.size < depth) :
    narrow s (matchWithin s depth) source member { cost := cost } =
      (Attempt.guard ((s.info source).isInterface && source ∈ s.allInterfaces member)
        { cost := cost.addInterfaceStep s source }).orElse fun _ =>
      (Attempt.guard (s.nullableUnderlying source = some member && (s.info member).isValueType &&
        (s.nullableUnderlying member).isNone) { cost := cost }).orElse fun _ =>
      narrowFromBase s (matchWithin s depth) source member { cost := cost } := by
  rw [narrow, narrowFromInterface_of_invariant fun f hf => ?_,
    narrowFromNullable_of_invariant fun u => matchWithin_invariant_of_holds hs href hm hmref hdepth]
  obtain ⟨hf, hfref⟩ :=
    (href.inherited hs).upward (Store.upward_of_mem_allInterfaces hf) ⟨hm, hmref⟩
  exact matchWithin_invariant_of_holds hs href hf hfref hdepth

end Level

/-! ### Both directions -/

/-- **Two directions end alike**: what matches the type as a member, covariantly, and what the type
matches as a source, contravariantly, is decided alike and with the same result. -/
def EndAlike (s : Store) (a : TypeId) (depth : Nat) (cost : MatchCost) (t : TypeId) : Prop :=
  matchWithin s depth a .covariant t { cost := cost } =
      matchWithin s depth t .contravariant a { cost := cost } ∧
    matchWithin s depth t .contravariant a { cost := cost } ≠ .unfinished

/-- A parameter without a base has no step to one. -/
theorem Store.baseStep_of_parameter (s : Store) {t : TypeId} (ht : (s.info t).isParameter)
    (hbase : (s.info t).base = none) : baseStep s t = none := by
  obtain ⟨p, hp⟩ := TypeInfo.isParameter_iff.mp ht
  rw [baseStep, hbase]
  dsimp only
  rw [TypeInfo.isInterface, hp]
  exact if_neg Bool.false_ne_true

/-- What a parameter reaches, the types that it is the base of reach. -/
theorem Store.Reaches.of_base_parameter {s : Store} {a t b : TypeId} (h : s.Reaches b a)
    (hs : s.WellFormed) (haparam : (s.info a).isParameter = false) (hbase : s.BaseOf t b)
    (hb : (s.info b).isParameter) : s.Reaches t a := by
  cases h with
  | self heq =>
    subst heq
    rw [hb] at haparam
    cases haparam
  | interface hinterface hmem =>
    refine .interface hinterface ?_
    rw [mem_allInterfaces_iff hs] at hmem ⊢
    obtain ⟨c, hc, hrest⟩ := hmem
    exact ⟨c, (mem_ancestors_iff hs).mpr (.head hbase ((mem_ancestors_iff hs).mp hc)), hrest⟩
  | nullable _ hvalue _ =>
    obtain ⟨p, hp⟩ := TypeInfo.isParameter_iff.mp hb
    rw [TypeInfo.isValueType, hp] at hvalue
    cases hvalue

section Converse

variable {s : Store} (hs : s.WellFormed) (href : s.ReferencesOutside) {a t : TypeId}
  (ha : s.Holds a) (haref : (s.info a).isByRef = false) (haparam : (s.info a).isParameter = false)
  {depth : Nat} {cost : MatchCost}

include hs href ha haref haparam

section Step

variable (hdepth : s.size < depth)

include hdepth

/-- Both directions ask the same of a type, and then they go on with the same base. -/
theorem matchWithin_converse_succ (ht : s.Holds t) (htref : (s.info t).isByRef = false)
    (htparam : (s.info t).isParameter = false)
    (hbase : ∀ b, baseStep s t = some b → ¬ s.Reaches t a →
      matchWithin s depth a .covariant b { cost := cost } =
        matchWithin s depth b .contravariant a { cost := cost }) :
    matchWithin s (depth + 1) a .covariant t { cost := cost } =
      matchWithin s (depth + 1) t .contravariant a { cost := cost } := by
  have hheight : ∀ {u}, s.Holds u → s.height u < depth := fun {u} hu =>
    Nat.lt_of_le_of_lt (Nat.le_trans (s.height_le u) hu) hdepth
  have hanone := href.noReference hs.toFormed haref
  have htnone := href.noReference hs.toFormed htref
  by_cases heq : a = t
  · subst heq
    rw [matchWithin_succ_of_plain haparam haref, matchWithin_succ_of_plain haparam haref,
      if_pos rfl, if_pos rfl]
  rw [matchWithin_of_ne hs htparam htnone (.of_empty s cost t) (hheight ht) heq,
    matchWithin_of_ne hs haparam hanone (.of_empty s cost a) (hheight ha) (Ne.symm heq),
    matchVariance, matchVariance, narrow_eq hs href ht htref hdepth,
    widen_eq hs hanone (.of_empty s cost a) (hheight ha)]
  refine Attempt.orElse_congr fun hinterface => Attempt.orElse_congr fun hnullable => ?_
  -- What is tried before the step to a base is refused, so the type does not reach the other one.
  have hnot : ¬ s.Reaches t a := fun hreaches => by
    rw [Attempt.guard_eq_refused_iff] at hinterface hnullable
    cases hreaches with
    | self h => exact heq h.symm
    | interface h h' => simp [h, h'] at hinterface
    | nullable h h' h'' => simp [h, h', h''] at hnullable
  unfold narrowFromBase widenToBase
  cases hstep : baseStep s t with
  | none => rfl
  | some b =>
    dsimp only
    rw [hbase b hstep hnot]

/-- A contravariant match ends if it does so from the base. -/
theorem contravariant_finished_succ
    (hbase : ∀ b, baseStep s t = some b → ¬ s.Reaches t a →
      matchWithin s depth b .contravariant a { cost := cost } ≠ .unfinished) :
    matchWithin s (depth + 1) t .contravariant a { cost := cost } ≠ .unfinished := by
  have hanone := href.noReference hs.toFormed haref
  have hheight := Nat.lt_of_le_of_lt (Nat.le_trans (s.height_le a) ha) hdepth
  by_cases hreaches : s.Reaches t a
  · rw [matchWithin_of_reaches hs haparam hanone (.of_empty s cost a) hheight hreaches]
    rintro ⟨⟩
  · rw [matchWithin_of_not_reaches hs haparam hanone (.of_empty s cost a) hheight hreaches,
      widenToBase]
    cases hstep : baseStep s t with
    | none => rintro ⟨⟩
    | some b =>
      have hend := hbase b hstep hreaches
      dsimp only
      generalize matchWithin s depth b .contravariant a { cost := cost } = attempt at hend ⊢
      cases attempt with
      | unfinished => exact absurd rfl hend
      | accepted | refused => rintro ⟨⟩

/-- **One level of both directions.** -/
theorem endAlike_succ (ht : s.Holds t) (htref : (s.info t).isByRef = false)
    (htparam : (s.info t).isParameter = false)
    (hbase : ∀ b, baseStep s t = some b → ¬ s.Reaches t a → EndAlike s a depth cost b) :
    EndAlike s a (depth + 1) cost t :=
  ⟨matchWithin_converse_succ hs href ha haref haparam hdepth ht htref htparam
      fun b hstep hnot => (hbase b hstep hnot).1,
    contravariant_finished_succ hs href ha haref haparam hdepth
      fun b hstep hnot => (hbase b hstep hnot).2⟩

/-- **A parameter at the end of a chain of bases** is given up in both directions. -/
theorem endAlike_of_parameter {b : TypeId} (hb : (s.info b).isParameter)
    (hstep : baseStep s b = none) (hnot : ¬ s.Reaches b a) : EndAlike s a (depth + 1) cost b := by
  have hcontra : matchWithin s (depth + 1) b .contravariant a { cost := cost } = .refused := by
    rw [matchWithin_of_not_reaches hs haparam (href.noReference hs.toFormed haref)
      (.of_empty s cost a) (Nat.lt_of_le_of_lt (Nat.le_trans (s.height_le a) ha) hdepth) hnot,
      widenToBase, hstep]
  obtain ⟨p, hp⟩ := TypeInfo.isParameter_iff.mp hb
  have hne : a ≠ b := fun heq => hnot (.self heq.symm)
  refine ⟨?_, by rw [hcontra]; rintro ⟨⟩⟩
  rw [hcontra, matchWithin, matchStep, hp]
  dsimp only
  rw [matchParameter, if_neg (by rw [Inference.owns_of_empty]; exact Bool.false_ne_true),
    Attempt.guard, if_neg (by rw [decide_eq_true_eq]; exact hne)]

end Step

/-- **The two directions end alike** along a chain of bases that comes to an end, if a parameter in
it is the end of it. -/
theorem endAlike_of_isChain
    (hparam : ∀ t p, s.BaseOf t p → (s.info p).isParameter → (s.info p).base = none)
    {rest : List TypeId} (hchain : (t :: rest).IsChain fun t b => baseStep s t = some b)
    (hlast : ∀ last ∈ (t :: rest).getLast?, baseStep s last = none) (ht : s.Holds t)
    (htref : (s.info t).isByRef = false) (htparam : (s.info t).isParameter = false)
    (hdepth : s.size + rest.length + 1 < depth) : EndAlike s a depth cost t := by
  induction rest generalizing t depth with
  | nil =>
    obtain ⟨depth, rfl⟩ : ∃ d, depth = d + 1 := ⟨depth - 1, by omega⟩
    have hstop : baseStep s t = none := hlast t rfl
    refine endAlike_succ hs href ha haref haparam (by simp at hdepth; omega) ht htref htparam
      fun b hstep _ => ?_
    rw [hstop] at hstep
    cases hstep
  | cons b rest ih =>
    rw [List.length_cons] at hdepth
    obtain ⟨depth, rfl⟩ : ∃ d, depth = d + 2 := ⟨depth - 2, by omega⟩
    obtain ⟨hstep, hrest⟩ := List.isChain_cons_cons.mp hchain
    refine endAlike_succ hs href ha haref haparam (by omega) ht htref htparam
      fun b' hstep' hnot => ?_
    obtain rfl := Option.some.inj (hstep.symm.trans hstep')
    obtain ⟨hb, hbref⟩ := (href.inherited hs).baseStep hstep ⟨ht, htref⟩
    cases hbparam : (s.info b).isParameter with
    | false => exact ih hrest hlast hb hbref hbparam (by omega)
    | true =>
      have hbase : s.BaseOf t b := Store.baseOf_of_baseStep hstep fun heq => by
        rw [heq, (TypeInfo.plain_of_form_eq_named hs.form_object).1] at hbparam
        cases hbparam
      exact endAlike_of_parameter hs href ha haref haparam (by omega) hbparam
        (s.baseStep_of_parameter hbparam (hparam t b hbase hbparam)) fun hreaches =>
        hnot (hreaches.of_base_parameter hs haparam hbase hbparam)

end Converse

/-- **Covariance is the converse of contravariance.** Let the root have no base, chains of bases no
cycle, references stand outside, and let a parameter that is the base of a type have no base itself.
Then for types that are held, no references and no parameters a covariant search from the first to
the second and a contravariant one from the second to the first both end, with the same verdict and
the same cost, at every depth that leaves room for a walk. -/
theorem search_converse {allowed : Store → Operation → Prop} {s : Store}
    (hreach : s.Reachable allowed) (hobject : (s.info Core.object).base = none)
    (hacyclic : ∀ t, ¬ Relation.TransGen s.BaseOf t t) (href : s.ReferencesOutside)
    (hparam : ∀ t p, s.BaseOf t p → (s.info p).isParameter → (s.info p).base = none)
    {a b : TypeId} (ha : s.Holds a) (hb : s.Holds b)
    (haref : (s.info a).isByRef = false) (hbref : (s.info b).isByRef = false)
    (haparam : (s.info a).isParameter = false) (hbparam : (s.info b).isParameter = false)
    (cost : MatchCost) {depth : Nat} (hdepth : 2 * s.size + 4 ≤ depth) :
    ∃ verdict j, s.search depth a .covariant b { cost := cost } = some (verdict, j) ∧
      s.search depth b .contravariant a { cost := cost } = some (verdict, j) := by
  have hs := hreach.wellFormed
  have hlast : ∀ last ∈ (s.lineage b).getLast?, baseStep s last = none := fun _ =>
    Store.baseStep_getLast?_lineage hs hobject hacyclic hb
  have hchain := s.isChain_lineage hobject b
  have hlength := s.length_lineage_le hobject b
  obtain ⟨rest, hlineage⟩ : ∃ rest, s.lineage b = b :: rest :=
    ⟨_, List.eq_cons_of_mem_head? (s.head?_lineage b)⟩
  rw [hlineage] at hlast hchain hlength
  rw [List.length_cons] at hlength
  have halike : EndAlike s a depth cost b := endAlike_of_isChain hs href ha haref haparam hparam
    hchain hlast hb hbref hbparam (by omega)
  obtain ⟨heq, hend⟩ := halike
  rw [search_eq_report, search_eq_report, heq]
  cases hrun : matchWithin s depth b .contravariant a { cost := cost } with
  | accepted j => exact ⟨true, j, rfl, rfl⟩
  | refused => exact ⟨false, _, rfl, rfl⟩
  | unfinished => exact absurd hrun hend

/-- A class below a parameter has the interface that the parameter declares: one step is counted in
both directions. -/
theorem search_converse_parameter :
    ∃ (s : Store) (p t : TypeId), s.Reachable (fun _ _ => True) ∧
      s.BaseOf t p ∧ (s.info p).isParameter ∧
      s.search 64 t .contravariant Core.enumerable {} =
        some (true, { cost := { totalInterfaces := 1 } }) ∧
      s.search 64 Core.enumerable .covariant t {} =
        some (true, { cost := { totalInterfaces := 1 } }) := by
  let ops : List Operation := [.define "D" .classKind ["T"], .addInterface ⟨28⟩ Core.enumerable,
    .define "C" .classKind [], .setBase ⟨29⟩ ⟨28⟩]
  obtain ⟨s, hreach, hsize, hobject, hends, hbases, hrefs, hbase, hparam, hrun⟩ : ∃ s : Store,
      s.Reachable (fun _ _ => True) ∧ s.size = 30 ∧ (s.info Core.object).base = none ∧
      (∀ i < 30, (s.info ⟨i⟩).isParameter → (s.info ⟨i⟩).base = none) ∧
      (∀ i < 30, (s.info ⟨i⟩).base.all fun b => b.index < i) ∧
      (∀ i < 30, (s.info ⟨i⟩).isByRef = false) ∧ (s.info ⟨29⟩).base = some ⟨28⟩ ∧
      (∀ i ∈ [4, 28, 29], (s.info ⟨i⟩).isParameter = decide (i = 28)) ∧
      s.search 64 ⟨29⟩ .contravariant Core.enumerable {} =
        some (true, { cost := { totalInterfaces := 1 } }) :=
    ⟨Store.initial.afterAll ops,
      .of_checkRun (fun _ _ => true) (fun _ _ _ _ _ => trivial) .initial (by decide +kernel),
      by decide +kernel⟩
  obtain ⟨verdict, j, hcovariant, hcontravariant⟩ := search_converse (a := Core.enumerable)
    (b := ⟨29⟩) hreach hobject (Store.acyclic_of_base_lt (by rwa [hsize]))
    (Store.referencesOutside_of_none (by rwa [hsize]))
    (fun t p hp hparam => hends p.index (hsize ▸ hreach.wellFormed.holds_above
      (TypeInfo.base_mem_above hp)) hparam)
    (Store.holds_of_size_eq hsize (by decide)) (Store.holds_of_size_eq hsize (by decide))
    (hrefs 4 (by decide)) (hrefs 29 (by decide)) (hparam 4 (by decide)) (hparam 29 (by decide)) {}
    (by rw [hsize] : 2 * s.size + 4 ≤ 64)
  rw [hrun] at hcontravariant
  cases hcontravariant
  exact ⟨s, ⟨28⟩, ⟨29⟩, hreach, hbase, hparam 28 (by decide), hrun, hcovariant⟩

/-- **The two directions part at a parameter** that is the base of a type and has a base itself:
from the type the chain of bases leads through the parameter to its base, but the base is never
compared with what stands above the parameter. -/
theorem contravariant_passes_parameter :
    ∃ (s : Store) (a b : TypeId), s.Reachable (fun _ _ => True) ∧
      (s.info Core.object).base = none ∧ (∀ t, ¬ Relation.TransGen s.BaseOf t t) ∧
      s.ReferencesOutside ∧ s.Holds a ∧ s.Holds b ∧
      (s.info a).isByRef = false ∧ (s.info b).isByRef = false ∧
      (s.info a).isParameter = false ∧ (s.info b).isParameter = false ∧
      s.search 66 a .covariant b {} = some (false, {}) ∧
      s.search 66 b .contravariant a {} = some (true, { cost := { totalTypes := 2 } }) := by
  -- Above the class 30 stands the parameter 29, and above that the class 27.
  let ops : List Operation := [.define "X" .classKind [], .define "D" .classKind ["T"],
    .setBase ⟨29⟩ ⟨27⟩, .define "C" .classKind [], .setBase ⟨30⟩ ⟨29⟩]
  obtain ⟨s, hreach, hsize, hobject, hbases, hrefs, ha, hb, hruns⟩ : ∃ s : Store,
      s.Reachable (fun _ _ => True) ∧ s.size = 31 ∧ (s.info Core.object).base = none ∧
      (∀ i < 31, (s.info ⟨i⟩).base.all fun b => b.index < i) ∧
      (∀ i < 31, (s.info ⟨i⟩).isByRef = false) ∧
      (s.info ⟨27⟩).isParameter = false ∧ (s.info ⟨30⟩).isParameter = false ∧
      s.search 66 ⟨27⟩ .covariant ⟨30⟩ {} = some (false, {}) ∧
      s.search 66 ⟨30⟩ .contravariant ⟨27⟩ {} = some (true, { cost := { totalTypes := 2 } }) :=
    ⟨Store.initial.afterAll ops,
      .of_checkRun (fun _ _ => true) (fun _ _ _ _ _ => trivial) .initial (by decide +kernel),
      by decide +kernel⟩
  exact ⟨s, ⟨27⟩, ⟨30⟩, hreach, hobject, Store.acyclic_of_base_lt (by rwa [hsize]),
    Store.referencesOutside_of_none (by rwa [hsize]), Store.holds_of_size_eq hsize (by decide),
    Store.holds_of_size_eq hsize (by decide), hrefs 27 (by decide), hrefs 30 (by decide), ha, hb,
    hruns⟩

end CallSite
