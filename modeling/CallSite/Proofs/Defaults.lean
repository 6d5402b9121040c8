import CallSite.Defaults
import CallSite.Proofs.Resolve.Repeat
import CallSite.Proofs.Type.Reachable

/-!
# Default values stay right

A default value is computed once and kept for the whole process, while the types go on to change:
they are given bases, interfaces and constraints, and others are made from them. None of this
touches what the value was computed from, which is the form of the type and of what it refers to. So
a value that was kept is the value that would be computed now, and no context sees one of another
(`CallSite.Process.defaults_coherent`).

* `Store.KeepsForms` – what no operation and no query changes of the types that are there.
* `Process.Reachable` – what a process comes to by making contexts, working with them and asking for
  default values, in any order.
* `Process.Coherent` – every value that was kept is the one that would be computed now.
* `Store.defaultValue_spec` – the value is null exactly where null may be stored, and else it is of
  the type itself. The two questions are decided by cases that are not the same: the value by the
  types that have a form of their own, null by the shape.
-/

namespace CallSite

/-! ### What stays of the types that are there -/

namespace Store

/-- **The types that are there keep what they are made of.** -/
structure KeepsForms (s s' : Store) : Prop where
  /-- No type is lost. -/
  holds : ∀ {t}, s.Holds t → s'.Holds t
  /-- Forms stay. -/
  form_eq : ∀ {t}, s.Holds t → s'.form t = s.form t
  /-- Definitions stay. -/
  definition_eq : ∀ {t}, s.Holds t → (s'.info t).definition = (s.info t).definition
  /-- Arguments stay. -/
  arguments_eq : ∀ {t}, s.Holds t → (s'.info t).arguments = (s.info t).arguments

variable {s s' : Store} {t : TypeId}

theorem KeepsForms.refl (s : Store) : s.KeepsForms s :=
  ⟨id, fun _ => rfl, fun _ => rfl, fun _ => rfl⟩

theorem KeepsForms.of_extends (h : s.Extends s') : s.KeepsForms s' where
  holds := h.holds
  form_eq := h.form_eq
  definition_eq ht := congrArg TypeInfo.definition (h.info_eq ht)
  arguments_eq ht := congrArg TypeInfo.arguments (h.info_eq ht)

theorem KeepsForms.of_sameForms (h : s.SameForms s') : s.KeepsForms s' where
  holds := h.holds_iff.mpr
  form_eq _ := h.form_eq _
  definition_eq _ := h.definition_eq _
  arguments_eq _ := h.arguments_eq _

/-- **No operation changes what a type is made of.** -/
theorem keepsForms_after {op : Operation} (hs : s.WellFormed) (hvalid : op.Valid s) :
    s.KeepsForms (op.after s) := by
  obtain hgrown | ⟨u, change, hafter, hsame, -⟩ := Operation.after_cases hs hvalid
  · exact .of_extends hgrown.toExtends
  · rw [hafter]
    exact .of_sameForms hsame

/-- What a type refers to is seen by its form. -/
theorem stripByRef_eq (s : Store) (t : TypeId) :
    s.stripByRef t = match s.form t with
      | .reference element => element
      | _ => t := by
  unfold stripByRef form TypeInfo.form
  cases (s.info t).shape <;> rfl

/-- A value type is one by its form. -/
theorem isValueType_eq (s : Store) (t : TypeId) :
    (s.info t).isValueType = match s.form t with
      | .named .structType _ _ => true
      | _ => false := by
  unfold TypeInfo.isValueType form TypeInfo.form
  cases (s.info t).shape <;> rfl

/-- **The default value of a type stays**, whatever is done with the types. -/
theorem defaultValue_of_keepsForms (hs : s.WellFormed) (h : s.KeepsForms s') (ht : s.Holds t) :
    s'.defaultValue t = s.defaultValue t := by
  have hstrip : s'.stripByRef t = s.stripByRef t := by
    rw [stripByRef_eq, stripByRef_eq, h.form_eq ht]
  have hinner := holds_stripByRef hs ht
  have hnullable : s'.nullableUnderlying (s.stripByRef t) =
      s.nullableUnderlying (s.stripByRef t) := by
    rw [nullableUnderlying, nullableUnderlying, h.definition_eq hinner, h.arguments_eq hinner]
  rw [defaultValue, defaultValue, hstrip, hnullable, isValueType_eq, isValueType_eq,
    h.form_eq hinner]

end Store

/-! ### Null and default values -/

/-- The types whose zeros have a form of their own. -/
def primitives : List TypeId :=
  [Core.boolean, Core.char, Core.int32, Core.int64, Core.double]

/-- The zero of such a type is of that type, so it is not null. -/
theorem of_primitiveZero? {t : TypeId} {value : Value} (h : primitiveZero? t = some value) :
    t ∈ primitives ∧ value.type? = some t := by
  have hall : ∀ t ∈ primitives, (primitiveZero? t).bind Value.type? = some t := by decide
  have hmem : t ∈ primitives := by
    by_contra hnot
    simp only [primitives, List.mem_cons, List.not_mem_nil, or_false, not_or] at hnot
    obtain ⟨hboolean, hchar, hint32, hint64, hdouble⟩ := hnot
    rw [primitiveZero?, if_neg hboolean, if_neg hchar, if_neg hint32, if_neg hint64,
      if_neg hdouble] at h
    cases h
  have htype := hall t hmem
  rw [h] at htype
  exact ⟨hmem, htype⟩

namespace Store

/-- The types whose zeros have a form of their own are plain value types. -/
def PrimitivesPlain (s : Store) : Prop :=
  ∀ t ∈ primitives, s.form t = .named .structType none []

theorem primitivesPlain_initial : initial.PrimitivesPlain := by
  unfold PrimitivesPlain
  decide +kernel

theorem PrimitivesPlain.keep {s s' : Store} (hplain : s.PrimitivesPlain) (hs : s.WellFormed)
    (h : s.KeepsForms s') : s'.PrimitivesPlain := by
  have hcore : ∀ t ∈ primitives, t.index ≤ Core.delegate.index := by decide
  intro t ht
  rw [h.form_eq (Nat.lt_of_le_of_lt (hcore t ht) hs.core_lt_size), hplain t ht]

/-- Null may be stored in what is no value type, and in value types that may be null. -/
theorem isNullAssignable_eq {s : Store} {t : TypeId}
    (hparam : (s.info (s.stripByRef t)).isParameter = false) : s.isNullAssignable t =
      (!(s.info (s.stripByRef t)).isValueType ||
        (s.nullableUnderlying (s.stripByRef t)).isSome) := by
  unfold isNullAssignable TypeInfo.isValueType
  unfold TypeInfo.isParameter at hparam
  dsimp only
  cases hshape : (s.info (s.stripByRef t)).shape with
  | parameter p =>
    rw [hshape] at hparam
    cases hparam
  | structType => rfl
  | classType | interfaceType | arrayType | byRefType => rfl

/-- **A default value is null exactly where null may be stored**, and else it is of the type
itself. -/
theorem defaultValue_spec {s : Store} (hs : s.PrimitivesPlain) {t : TypeId}
    (hparam : (s.info (s.stripByRef t)).isParameter = false) :
    (s.defaultValue t = .null ↔ s.isNullAssignable t) ∧
    (s.defaultValue t ≠ .null → (s.defaultValue t).type? = some (s.stripByRef t)) := by
  rw [isNullAssignable_eq hparam]
  unfold defaultValue
  dsimp only
  cases hzero : primitiveZero? (s.stripByRef t) with
  | some value =>
    -- A type with a zero of its own is a value type that is not made from another one.
    obtain ⟨hmem, htype⟩ := of_primitiveZero? hzero
    have hform := hs _ hmem
    have hvalue : (s.info (s.stripByRef t)).isValueType := by rw [isValueType_eq, hform]
    have hdefinition := (TypeInfo.form_eq_named_iff.mp hform).2.1
    have hnullable : s.nullableUnderlying (s.stripByRef t) = none := by
      unfold nullableUnderlying
      dsimp only
      rw [hdefinition]
      rfl
    refine ⟨⟨fun hnull => ?_, fun hassignable => ?_⟩, fun _ => htype⟩
    · dsimp only at hnull
      rw [hnull] at htype
      cases htype
    · rw [hvalue, hnullable] at hassignable
      cases hassignable
  | none =>
    dsimp only
    cases (s.nullableUnderlying (s.stripByRef t)).isSome <;>
      cases (s.info (s.stripByRef t)).isValueType <;> simp [Value.type?]

end Store

/-! ### Processes -/

namespace Process

/-- **What a process comes to**: contexts are made, worked with and asked about, in any order. -/
inductive Reachable : Process → Prop
  /-- A process begins without contexts. -/
  | start : Reachable {}
  /-- A context is made. -/
  | create {process : Process} : Reachable process → Reachable process.create.2
  /-- An operation is carried out on the types of a context. -/
  | operate {process : Process} {c : ContextId} {s : Store} {op : Operation} :
      Reachable process → process.context? c = some s → op.Valid s →
        Reachable (process.update c (op.after s))
  /-- A query is answered in a context, with or without success. -/
  | resolve {process : Process} {c : ContextId} {s : Store} {resolver : Resolver} {t : TypeId}
      {query : Query} : Reachable process → process.context? c = some s →
        resolver.registry.HeldBy s → s.Holds t → query.HeldBy s →
          Reachable (process.update c (storeAfter (resolver.tryResolve t query) s))
  /-- A default value is asked for. -/
  | default {process process' : Process} {c : ContextId} {t : TypeId} {value : Value} :
      Reachable process → process.defaultValue? c t = some (value, process') → Reachable process'

/-- **A process is coherent**: each of its contexts is well formed, and what was kept is what would
be computed now. -/
structure Coherent (process : Process) : Prop where
  /-- The types of a context are well formed. -/
  wellFormed : ∀ {c s}, process.context? c = some s → s.WellFormed
  /-- The types with a zero of their own are plain value types. -/
  primitives : ∀ {c s}, process.context? c = some s → s.PrimitivesPlain
  /-- What was kept is what would be computed. -/
  kept : ∀ {c t value}, process.defaults.lookup (c, t) = some value →
    process.compute? c t = some value

variable {process process' : Process} {c d : ContextId} {t : TypeId} {s s' : Store} {value : Value}

/-- What is computed is the default value of a type that the context holds. -/
theorem compute?_eq_some_iff : process.compute? c t = some value ↔
    ∃ s, process.context? c = some s ∧ s.Holds t ∧ s.defaultValue t = value := by
  have hheld : ∀ s : Store, (s.info? t).isSome ↔ s.Holds t := fun s => by
    simp [Store.info?, Store.Holds, Store.size]
  unfold compute?
  constructor
  · intro h
    obtain ⟨s, hc, h⟩ := Option.bind_eq_some_iff.mp h
    obtain ⟨info, hinfo, h⟩ := Option.bind_eq_some_iff.mp h
    exact ⟨s, hc, (hheld s).mp (by rw [hinfo]; rfl), Option.some.inj h⟩
  · rintro ⟨s, hc, ht, rfl⟩
    obtain ⟨info, hinfo⟩ := Option.isSome_iff_exists.mp ((hheld s).mpr ht)
    exact Option.bind_eq_some_iff.mpr ⟨s, hc, Option.bind_eq_some_iff.mpr ⟨info, hinfo, rfl⟩⟩

/-- A value that was kept is given, and what was not kept is computed. -/
theorem map_defaultValue? (process : Process) (c : ContextId) (t : TypeId) :
    (process.defaultValue? c t).map Prod.fst =
      (process.defaults.lookup (c, t)).or (process.compute? c t) := by
  unfold defaultValue?
  cases process.defaults.lookup (c, t) with
  | some value => rfl
  | none =>
    rw [Option.map_map]
    exact Option.map_id'

/-- What is asked for the first time is kept. -/
theorem defaultValue?_of_compute? (hnew : process.defaults.lookup (c, t) = none)
    (h : process.compute? c t = some value) : process.defaultValue? c t =
      some (value, { process with defaults := ((c, t), value) :: process.defaults }) := by
  rw [defaultValue?, hnew, h]
  rfl

/-! ### One step -/

/-- **A process goes on from another**: each context is still there and keeps what its types are
made of. -/
def Follows (process process' : Process) : Prop :=
  ∀ c s, process.context? c = some s → ∃ s', process'.context? c = some s' ∧ s.KeepsForms s'

/-- What is computed stays while a process goes on. -/
theorem Follows.compute? (hfollows : process.Follows process')
    (hs : ∀ {c s}, process.context? c = some s → s.WellFormed)
    (h : process.compute? c t = some value) : process'.compute? c t = some value := by
  obtain ⟨s, hc, ht, rfl⟩ := compute?_eq_some_iff.mp h
  obtain ⟨s', hc', hkeeps⟩ := hfollows c s hc
  exact compute?_eq_some_iff.mpr
    ⟨s', hc', hkeeps.holds ht, Store.defaultValue_of_keepsForms (hs hc) hkeeps ht⟩

theorem follows_create (process : Process) : process.Follows process.create.2 := by
  intro c s hc
  obtain ⟨hlt, -⟩ := List.getElem?_eq_some_iff.mp hc
  exact ⟨s, (List.getElem?_append_left hlt).trans hc, .refl s⟩

/-- What a context is after one more was made. -/
theorem context?_create (h : process.create.2.context? c = some s) :
    process.context? c = some s ∨ s = Store.initial := by
  have hmem : (process.contexts ++ [Store.initial])[c.number]? = some s := h
  rw [List.getElem?_append] at hmem
  split at hmem
  · exact .inl hmem
  · exact .inr (List.mem_singleton.mp (List.mem_of_getElem? hmem))

/-- What a context is after the types of one were changed. -/
theorem context?_update (h : (process.update c s').context? d = some s) :
    process.context? d = some s ∨ s = s' := by
  have hmem : (process.contexts.set c.number s')[d.number]? = some s := h
  rw [List.getElem?_set] at hmem
  split at hmem
  · split at hmem
    · exact .inr (Option.some.inj hmem).symm
    · cases hmem
  · exact .inl hmem

theorem follows_update (hc : process.context? c = some s) (hkeeps : s.KeepsForms s') :
    process.Follows (process.update c s') := by
  intro d u hd
  obtain ⟨hlt, -⟩ := List.getElem?_eq_some_iff.mp hc
  unfold update context?
  dsimp only
  rw [List.getElem?_set]
  split
  case isTrue hsame =>
    have hu : u = s := by
      unfold context? at hc hd
      rw [← hsame, hc] at hd
      exact (Option.some.inj hd).symm
    exact ⟨s', rfl, hu ▸ hkeeps⟩
  case isFalse => exact ⟨u, hd, .refl u⟩

namespace Coherent

theorem start : Coherent {} where
  wellFormed h := by cases h
  primitives h := by cases h
  kept h := by cases h

theorem create (h : process.Coherent) : process.create.2.Coherent where
  wellFormed hc := (context?_create hc).elim h.wellFormed fun hnew =>
    hnew ▸ Store.wellFormed_initial
  primitives hc :=
    (context?_create hc).elim h.primitives fun hnew => hnew ▸ Store.primitivesPlain_initial
  kept hvalue := process.follows_create.compute? h.wellFormed (h.kept hvalue)

/-- Types may be added to a context, and those that are there may change in whatever they are not
made of. -/
theorem update (h : process.Coherent) (hc : process.context? c = some s) (hs : s'.WellFormed)
    (hkeeps : s.KeepsForms s') : (process.update c s').Coherent where
  wellFormed hd := (context?_update hd).elim h.wellFormed fun hnew => hnew ▸ hs
  primitives hd := (context?_update hd).elim h.primitives fun hnew =>
    hnew ▸ (h.primitives hc).keep (h.wellFormed hc) hkeeps
  kept hvalue := (follows_update hc hkeeps).compute? h.wellFormed (h.kept hvalue)

/-- **What is kept is what was computed.** -/
theorem default (h : process.Coherent)
    (hvalue : process.defaultValue? c t = some (value, process')) : process'.Coherent := by
  unfold defaultValue? at hvalue
  cases hkept : process.defaults.lookup (c, t) with
  | some found =>
    rw [hkept] at hvalue
    obtain ⟨-, rfl⟩ := Prod.mk.inj (Option.some.inj hvalue)
    exact h
  | none =>
    rw [hkept] at hvalue
    obtain ⟨computed, hcomputed, heq⟩ := Option.map_eq_some_iff.mp hvalue
    obtain ⟨-, rfl⟩ := Prod.mk.inj heq
    refine ⟨h.wellFormed, h.primitives, fun {d u found} hfound => ?_⟩
    rw [List.lookup_cons] at hfound
    split at hfound
    case h_1 hsame =>
      obtain ⟨rfl, rfl⟩ := Prod.mk.inj (eq_of_beq hsame)
      rw [← hfound]
      exact hcomputed
    case h_2 => exact h.kept hfound

end Coherent

/-! ### Every run -/

/-- **Whatever a process comes to is coherent.** -/
theorem Reachable.coherent (h : process.Reachable) : process.Coherent := by
  induction h with
  | start => exact .start
  | create _ ih => exact ih.create
  | operate _ hc hvalid ih =>
    have hs := ih.wellFormed hc
    exact ih.update hc (Operation.wellFormed_after hs hvalid) (Store.keepsForms_after hs hvalid)
  | resolve _ hc hregistry ht hquery ih =>
    have happends := (settles_tryResolve _ (ih.wellFormed hc) ht hquery hregistry).appends
    exact ih.update hc happends.wellFormed (.of_extends happends.toExtends)
  | default _ hvalue ih => exact ih.default hvalue

/-- **Default values are coherent.** Whatever was done in this context and in others, the default
value of a type is the one that would be computed now; and where the type, or what it refers to, is
no generic parameter, it is null exactly where null may be stored, and else of the type itself. -/
theorem defaults_coherent (h : process.Reachable) (c : ContextId) (t : TypeId) :
    (process.defaultValue? c t).map Prod.fst = process.compute? c t ∧
    ∀ s, process.context? c = some s → s.Holds t →
      (s.info (s.stripByRef t)).isParameter = false →
        ∃ value process', process.defaultValue? c t = some (value, process') ∧
          (value = .null ↔ s.isNullAssignable t) ∧
          (value ≠ .null → value.type? = some (s.stripByRef t)) := by
  have hcoherent := h.coherent
  have hsame : (process.defaultValue? c t).map Prod.fst = process.compute? c t := by
    rw [map_defaultValue?]
    cases hkept : process.defaults.lookup (c, t) with
    | some value => exact (hcoherent.kept hkept).symm
    | none => rfl
  refine ⟨hsame, fun s hc ht hparam => ?_⟩
  rw [compute?_eq_some_iff.mpr ⟨s, hc, ht, rfl⟩] at hsame
  obtain ⟨⟨value, process'⟩, hvalue, hfirst⟩ := Option.map_eq_some_iff.mp hsame
  obtain rfl : value = s.defaultValue t := hfirst
  exact ⟨_, process', hvalue, Store.defaultValue_spec (hcoherent.primitives hc) hparam⟩

/-- The first types of two programs, with a value type in the one and a class in the other. -/
def structStore : Store :=
  (Operation.define "A" .structKind []).after Store.initial

def classStore : Store :=
  (Operation.define "B" .classKind []).after Store.initial

/-- Two contexts whose latest types have the same number. The value type of the first was asked for,
and afterwards an interface was declared on it. -/
def crossedContexts : Process where
  contexts := [(Operation.addInterface ⟨27⟩ Core.comparable).after structStore, classStore]
  defaults := [((⟨0⟩, ⟨27⟩), .zero ⟨27⟩)]

theorem reachable_crossedContexts : crossedContexts.Reachable := by
  have hcreated : Reachable { contexts := [Store.initial, Store.initial] } :=
    .create (.create .start)
  have hfirst : Reachable { contexts := [structStore, Store.initial] } :=
    .operate (c := ⟨0⟩) hcreated rfl trivial
  have hsecond : Reachable { contexts := [structStore, classStore] } :=
    .operate (c := ⟨1⟩) hfirst rfl trivial
  have hsize : structStore.size = 28 := by decide +kernel
  have ht : structStore.Holds ⟨27⟩ := Nat.lt_of_lt_of_eq (by decide : 27 < 28) hsize.symm
  have hinterface : structStore.Holds Core.comparable :=
    Nat.lt_of_lt_of_eq (by decide : 2 < 28) hsize.symm
  have hvalue : ({ contexts := [structStore, classStore] } : Process).compute? ⟨0⟩ ⟨27⟩ =
      some (.zero ⟨27⟩) :=
    compute?_eq_some_iff.mpr ⟨structStore, rfl, ht, by decide +kernel⟩
  have hasked : Reachable { contexts := [structStore, classStore],
                            defaults := [((⟨0⟩, ⟨27⟩), .zero ⟨27⟩)] } :=
    .default hsecond (defaultValue?_of_compute? rfl hvalue)
  have hvalid : (Operation.addInterface ⟨27⟩ Core.comparable).Valid structStore := ⟨ht, hinterface⟩
  exact .operate (c := ⟨0⟩) hasked rfl hvalid

/-- **Neither context sees the values of the other**, and the value that was kept is still right. -/
theorem defaults_coherent_crossed : crossedContexts.Reachable ∧
    (crossedContexts.defaultValue? ⟨0⟩ ⟨27⟩).map Prod.fst = some (.zero ⟨27⟩) ∧
    (crossedContexts.defaultValue? ⟨1⟩ ⟨27⟩).map Prod.fst = some .null ∧
    classStore.Holds ⟨27⟩ ∧ (classStore.info (classStore.stripByRef ⟨27⟩)).isParameter = false ∧
    ∃ value process', crossedContexts.defaultValue? ⟨1⟩ ⟨27⟩ = some (value, process') ∧
      (value = .null ↔ classStore.isNullAssignable ⟨27⟩) ∧
      (value ≠ .null → value.type? = some (classStore.stripByRef ⟨27⟩)) := by
  have hfirst := defaults_coherent reachable_crossedContexts ⟨0⟩ ⟨27⟩
  have hsecond := defaults_coherent reachable_crossedContexts ⟨1⟩ ⟨27⟩
  have hsize : classStore.size = 28 := by decide +kernel
  have ht : classStore.Holds ⟨27⟩ := Nat.lt_of_lt_of_eq (by decide : 27 < 28) hsize.symm
  have hparam : (classStore.info (classStore.stripByRef ⟨27⟩)).isParameter = false := by
    decide +kernel
  exact ⟨reachable_crossedContexts, hfirst.1.trans (by decide +kernel),
    hsecond.1.trans (by decide +kernel), ht, hparam, hsecond.2 classStore rfl ht hparam⟩

end Process

end CallSite
