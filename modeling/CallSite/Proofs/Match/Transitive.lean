import CallSite.Proofs.Match.Walk
import CallSite.Proofs.Type.Check

/-!
# Assignability is transitive

If a source flows into a type and that type into a member, the source flows into the member. The
search finds a way of its own for each of the three pairs, and the two ways that are given do not
simply follow one another: where the first one ends with a step to an interface or to a nullable
type, the second one begins at a type that the source does not walk through.

What closes the gap is the root of the hierarchy (`Store.Rooted`). Above an interface stands only
the root, to which everything walks (`Store.Rooted.walk_object`), and what an interface inherits its
subtypes inherit. Above a nullable type stands what stands above every value type, and its
interfaces are those of the base of all value types.

* `Store.Rooted.exists_walk_of_reaches` – a step to a type, a walk from there and a second step are
  a walk and a step.
* `CallSite.matches_trans` – what this says of matches.
-/

namespace CallSite

namespace Store

variable {s : Store}

/-- **A hierarchy is rooted**: classes and arrays walk to the root, value types walk there through
the base of all value types, and interfaces and nullable types inherit nothing on the way. -/
structure Rooted (s : Store) : Prop where
  /-- The root has no base. -/
  object : (s.info Core.object).base = none
  /-- Interfaces have no base. -/
  interface : ∀ {t}, (s.info t).isInterface → (s.info t).base = none
  /-- Classes and arrays derive from the root. -/
  reference : ∀ {t}, s.Holds t → (s.info t).isReferenceType → (s.info t).isInterface = false →
    Relation.ReflTransGen s.BaseOf t Core.object
  /-- Value types derive from the base of all value types. -/
  value : ∀ {t}, (s.info t).isValueType → Relation.ReflTransGen s.BaseOf t Core.valueType
  /-- Nullable types stand directly below the base of all value types, and declare no interface. -/
  nullable : ∀ {t}, (s.info t).definition = some Core.nullable →
    s.BaseOf t Core.valueType ∧ (s.info t).interfaces = []

/-- A nullable type is constructed from the definition of nullable types. -/
theorem definition_of_nullableUnderlying {t u : TypeId} (h : s.nullableUnderlying t = some u) :
    (s.info t).definition = some Core.nullable := by
  unfold nullableUnderlying at h
  dsimp only at h
  split at h
  · assumption
  · cases h

namespace Rooted

variable (hroot : s.Rooted) {a b c x y : TypeId}

include hroot

/-- An interface steps to the root. -/
theorem baseStep_interface (hb : (s.info b).isInterface) : baseStep s b = some Core.object := by
  rw [baseStep, hroot.interface hb]
  exact if_pos hb

/-- The base of all value types derives from the root. -/
theorem bases_valueType (hs : s.WellFormed) :
    Relation.ReflTransGen s.BaseOf Core.valueType Core.object := by
  have hshape := (TypeInfo.form_eq_named_iff.mp hs.form_valueType).1
  refine hroot.reference (Nat.lt_trans (by decide) hs.core_lt_size) ?_ ?_
  · rw [TypeInfo.isReferenceType, hshape]
  · rw [TypeInfo.isInterface, hshape]

/-- **Every type walks to the root**, unless it is a parameter or a reference. -/
theorem walk_object (hs : s.WellFormed) (ha : s.Holds a) (hparam : (s.info a).isParameter = false)
    (href : (s.info a).isByRef = false) : s.Walk a Core.object := by
  cases hshape : (s.info a).shape with
  | classType | arrayType =>
    refine walk_of_bases (hroot.reference ha ?_ ?_)
    · rw [TypeInfo.isReferenceType, hshape]
    · rw [TypeInfo.isInterface, hshape]
  | interfaceType =>
    exact .single (hroot.baseStep_interface (TypeInfo.isInterface_iff.mpr hshape))
  | structType =>
    exact walk_of_bases ((hroot.value (TypeInfo.isValueType_iff.mpr hshape)).trans
      (hroot.bases_valueType hs))
  | byRefType =>
    exact absurd hshape (TypeInfo.shape_ne_reference href)
  | parameter =>
    exact absurd hshape (TypeInfo.shape_ne_parameter hparam)

/-- **What an interface reaches, every type that has it reaches.** -/
theorem reaches_of_interface (hs : s.WellFormed) (hb : (s.info b).isInterface)
    (hmem : b ∈ s.allInterfaces x) (hbc : s.Reaches b c) : s.Reaches x c := by
  cases hbc with
  | self h =>
    subst h
    exact .interface hb hmem
  | interface hc hcmem =>
    refine .interface hc ?_
    rw [mem_allInterfaces_iff hs] at hmem hcmem ⊢
    obtain ⟨t, ht, u, hu, hub⟩ := hmem
    obtain ⟨t', ht', u', hu', huc⟩ := hcmem
    rw [ancestors_of_base_eq_none (hroot.interface hb)] at ht'
    obtain rfl := List.mem_singleton.mp ht'
    exact ⟨t, ht, u, hu, (hub.tail hu').trans huc⟩
  | nullable _ hvalue _ =>
    rw [TypeInfo.isInterface_iff] at hb
    rw [TypeInfo.isValueType, hb] at hvalue
    cases hvalue

/-- **What a nullable type reaches** is the type itself, or what the base of all value types
reaches. -/
theorem eq_or_reaches_of_nullable (hs : s.WellFormed) {u : TypeId}
    (hb : s.nullableUnderlying b = some u) (hbc : s.Reaches b c) :
    b = c ∨ s.Reaches Core.valueType c := by
  cases hbc with
  | self h => exact .inl h
  | interface hc hcmem =>
    obtain ⟨hbase, hnone⟩ := hroot.nullable (definition_of_nullableUnderlying hb)
    refine .inr (.interface hc ?_)
    rw [mem_allInterfaces_iff hs] at hcmem ⊢
    obtain ⟨t, ht, u', hu', huc⟩ := hcmem
    rw [mem_ancestors_iff hs] at ht
    rcases ht.cases_head with rfl | ⟨b', hb', hrest⟩
    · rw [Declares, hnone] at hu'
      cases hu'
    · obtain rfl := Option.some.inj (hbase.symm.trans hb')
      exact ⟨t, (mem_ancestors_iff hs).mpr hrest, u', hu', huc⟩
  | nullable _ _ hnone =>
    rw [hb] at hnone
    cases hnone

/-- **A step, a walk and a second step are a walk and a step.** -/
theorem exists_walk_of_reaches (hs : s.WellFormed) (ha : s.Walk a Core.object) (hax : s.Walk a x)
    (hxb : s.Reaches x b) (hby : s.Walk b y) (hyc : s.Reaches y c) :
    ∃ z, s.Walk a z ∧ s.Reaches z c := by
  cases hxb with
  | self h =>
    subst h
    exact ⟨y, hax.trans hby, hyc⟩
  | interface hb hmem =>
    rcases hby.cases_step (hroot.baseStep_interface hb) with rfl | hby
    · exact ⟨x, hax, hroot.reaches_of_interface hs hb hmem hyc⟩
    · -- Above an interface stands the root alone, and the source walks there as well.
      obtain rfl := hby.eq_of_no_step (baseStep_object hs hroot.object)
      exact ⟨_, ha, hyc⟩
  | nullable hb hvalue hnone =>
    have hbase := baseStep_of_baseOf (hroot.nullable (definition_of_nullableUnderlying hb)).1
    have hx : s.Walk a Core.valueType := hax.trans (walk_of_bases (hroot.value hvalue))
    rcases hby.cases_step hbase with rfl | hby
    · rcases hroot.eq_or_reaches_of_nullable hs hb hyc with rfl | hc
      · exact ⟨x, hax, .nullable hb hvalue hnone⟩
      · exact ⟨_, hx, hc⟩
    · exact ⟨y, hx.trans hby, hyc⟩

end Rooted

end Store

/-- **Assignability is transitive.** In a rooted hierarchy with references outside, let a source
flow into a type and that type into a member, none of them a reference or a parameter, and no
parameter with a slot. Then the source flows into the member, from every prior cost and at every
depth that leaves room for a walk. -/
theorem matches_trans {allowed : Store → Operation → Prop} {s : Store}
    (hreach : s.Reachable allowed) (hroot : s.Rooted) (href : s.ReferencesOutside)
    {a b c : TypeId} (ha : s.Holds a) (hc : s.Holds c)
    (haref : (s.info a).isByRef = false) (hbref : (s.info b).isByRef = false)
    (hcref : (s.info c).isByRef = false) (haparam : (s.info a).isParameter = false)
    (hbparam : (s.info b).isParameter = false) (hcparam : (s.info c).isParameter = false)
    {depth₁ depth₂ : Nat} {cost₁ cost₂ : MatchCost} {j₁ j₂ : Inference}
    (hab : s.matches depth₁ a .contravariant b { cost := cost₁ } = some j₁)
    (hbc : s.matches depth₂ b .contravariant c { cost := cost₂ } = some j₂)
    (cost : MatchCost) {depth : Nat} (hdepth : 2 * s.size + 4 ≤ depth) :
    ∃ j, s.matches depth a .contravariant c { cost := cost } = some j := by
  have hs := hreach.wellFormed
  obtain ⟨x, hax, hxb⟩ := Store.exists_walk_of_matches hs href hbparam hbref hab
  obtain ⟨y, hby, hyc⟩ := Store.exists_walk_of_matches hs href hcparam hcref hbc
  obtain ⟨z, haz, hzc⟩ := hroot.exists_walk_of_reaches hs (hroot.walk_object hs ha haparam haref)
    hax hxb hby hyc
  exact Store.exists_matches_of_walk hs href hcparam hcref hroot.object ha hc haz hzc cost hdepth

/-- The test whether a hierarchy is rooted as far as one type goes. -/
def Store.isRootedAt (s : Store) (t : TypeId) : Bool :=
  let info := s.info t
  (!info.isInterface || info.base.isNone) &&
  (!info.isReferenceType || info.isInterface || Core.object ∈ s.ancestors t) &&
  (!info.isValueType || Core.valueType ∈ s.ancestors t) &&
  (info.definition ≠ some Core.nullable ||
    (info.base = some Core.valueType && info.interfaces.isEmpty))

/-- **A hierarchy is rooted** if it is so as far as each type goes. -/
theorem Store.Rooted.of_check {s : Store} (hobject : (s.info Core.object).base = none)
    (h : ∀ i < s.size, s.isRootedAt ⟨i⟩) : s.Rooted := by
  have hat : ∀ {t}, s.Holds t → s.isRootedAt t := fun {t} ht => h t.index ht
  simp only [Store.isRootedAt, Bool.and_eq_true, Bool.or_eq_true, Bool.not_eq_true',
    decide_eq_true_eq, Option.isNone_iff_eq_none, List.isEmpty_iff] at hat
  have hheld : ∀ {t}, s.info t ≠ TypeInfo.unknown → s.Holds t := fun hne =>
    not_not.mp fun hnot => hne (Store.info_of_not_holds hnot)
  have hbases : ∀ {t u}, u ∈ s.ancestors t → Relation.ReflTransGen s.BaseOf t u :=
    Store.bases_of_mem_ancestorsWithin
  refine ⟨hobject, fun {t} ht => ?_, fun {t} ht href hnot => ?_, fun {t} ht => ?_, fun {t} ht => ?_⟩
  · have h := hat (hheld fun heq => by rw [heq] at ht; cases ht)
    simpa [ht] using h.1.1.1
  · exact hbases (by simpa [href, hnot] using (hat ht).1.1.2)
  · have h := hat (hheld fun heq => by rw [heq] at ht; cases ht)
    exact hbases (by simpa [ht] using h.1.2)
  · have h := hat (hheld fun heq => by rw [heq] at ht; cases ht)
    simpa [ht, Store.BaseOf] using h.2

/-- A number flows into its nullable type, which flows into the root: by a step to what is no base
of the number, and by two steps to bases. The number itself flows into the root. -/
theorem matches_trans_nullable :
    ∃ (s : Store) (nullable : TypeId) (j₁ j₂ : Inference), s.Reachable (fun _ _ => True) ∧
      s.display nullable = "Nullable<Int32>" ∧
      s.matches 60 Core.int32 .contravariant nullable {} = some j₁ ∧
      s.matches 60 nullable .contravariant Core.object {} = some j₂ ∧
      ∃ j, s.matches 60 Core.int32 .contravariant Core.object {} = some j := by
  obtain ⟨s, hreach, hsize, hname, hobject, hroot, hrefs, hparams, hfirst, hsecond⟩ : ∃ s : Store,
      s.Reachable (fun _ _ => True) ∧ s.size = 28 ∧ s.display ⟨27⟩ = "Nullable<Int32>" ∧
      (s.info Core.object).base = none ∧ (∀ i < 28, s.isRootedAt ⟨i⟩) ∧
      (∀ i < 28, (s.info ⟨i⟩).isByRef = false) ∧
      (∀ t ∈ [Core.int32, ⟨27⟩, Core.object], (s.info t).isParameter = false) ∧
      s.matches 60 Core.int32 .contravariant ⟨27⟩ {} = some {} ∧
      s.matches 60 ⟨27⟩ .contravariant Core.object {} = some { cost := { totalTypes := 2 } } :=
    ⟨Store.initial.afterAll [.nullableOf Core.int32],
      (Store.Reachable.of_scopedRun (by decide +kernel)).mono fun _ _ _ => trivial,
      by decide +kernel⟩
  have hheld : ∀ {t : TypeId}, t.index < 28 → s.Holds t := Store.holds_of_size_eq hsize
  refine ⟨s, ⟨27⟩, _, _, hreach, hname, hfirst, hsecond, ?_⟩
  exact matches_trans hreach (.of_check hobject (by rwa [hsize]))
    (Store.referencesOutside_of_none (by rwa [hsize])) (hheld (by decide)) (hheld (by decide))
    (hrefs _ (by decide)) (hrefs _ (by decide)) (hrefs _ (by decide)) (hparams _ (by decide))
    (hparams _ (by decide)) (hparams _ (by decide)) hfirst hsecond {} (by rw [hsize])

end CallSite
