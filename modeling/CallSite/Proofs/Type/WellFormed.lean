import CallSite.Proofs.Type.Form
import CallSite.Type.Define

/-!
# Well-formed stores

A store is **well formed** when its forms are, when every type that a row points to is held, and
when the roots stand where they stand in every store. Beside it there is one condition on how a
store is used: it is **scoped** when the base and the interfaces of a type mention only parameters
that the type mentions itself.

The rest of this module says what the operations on rows do to a store: `Formed.add` for a row that
is appended, `SameForms.formed` for a row that is changed and keeps its form, and `Formed.define`
for a definition, which is appended together with its own parameters.
-/

namespace CallSite

/-! ### What a row points to -/

namespace TypeInfo

/-- What stands directly above a type: its base and the interfaces it declares. -/
def above (info : TypeInfo) : List TypeId :=
  info.base.toList ++ info.interfaces

/-- The types that constrain a type, if it is a parameter. -/
def constraints (info : TypeInfo) : List TypeId :=
  match info.shape with
  | .parameter p => p.constraints
  | _ => []

theorem base_mem_above {info : TypeInfo} {b : TypeId} (h : info.base = some b) :
    b ∈ info.above := by
  simp [above, h]

theorem interface_mem_above {info : TypeInfo} {u : TypeId} (h : u ∈ info.interfaces) :
    u ∈ info.above :=
  List.mem_append_right _ h

/-- A base that is set stands in place of the one before it. -/
theorem mem_above_of_base {info : TypeInfo} {b v : TypeId}
    (h : v ∈ { info with base := some b }.above) : v ∈ info.above ∨ v = b := by
  rcases List.mem_append.mp h with h | h
  · exact .inr (by simpa using h)
  · exact .inl (interface_mem_above h)

/-- An interface that is declared stands beside those before it. -/
theorem mem_above_of_interface {info : TypeInfo} {f v : TypeId}
    (h : v ∈ { info with interfaces := info.interfaces ++ [f] }.above) :
    v ∈ info.above ∨ v = f := by
  rcases List.mem_append.mp h with h | h
  · exact .inl (List.mem_append_left _ h)
  · rcases List.mem_append.mp h with h | h
    · exact .inl (interface_mem_above h)
    · exact .inr (List.mem_singleton.mp h)

theorem constraints_of_parameter {info : TypeInfo} {p : GenericParameter}
    (h : info.shape = .parameter p) : info.constraints = p.constraints := by
  rw [constraints, h]

end TypeInfo

namespace Store

/-- **A well-formed store.** -/
structure WellFormed (s : Store) : Prop extends s.Formed where
  /-- Bases and interfaces are held. -/
  holds_above : ∀ {t u}, u ∈ (s.info t).above → s.Holds u
  /-- Constraints are held. -/
  holds_constraint : ∀ {t u}, u ∈ (s.info t).constraints → s.Holds u
  /-- Parameters that were made again are held. -/
  holds_rebound : ∀ {entry}, entry ∈ s.rebound → ∀ t ∈ entry.2.2, s.Holds t
  /-- The types of `Core` are held. -/
  core_lt_size : Core.delegate.index < s.size
  /-- The root of all classes is a plain class. -/
  form_object : s.form Core.object = .named .classType none []
  /-- The base of all value types is a plain class. -/
  form_valueType : s.form Core.valueType = .named .classType none []
  /-- The base of all arrays is a plain class. -/
  form_array : s.form Core.array = .named .classType none []
  /-- Nullable types have one parameter and are value types. -/
  form_nullable : s.form Core.nullable = .named .structType none [⟨10⟩]
  /-- What can be walked through and yields its argument has one parameter and is an interface. -/
  form_enumerableOf : s.form Core.enumerableOf = .named .interfaceType none [⟨8⟩]

/-- Nullable types are no interfaces. -/
theorem WellFormed.nullableUnderlying_of_isInterface {s : Store} (hs : s.WellFormed) {t : TypeId}
    (ht : (s.info t).isInterface) : s.nullableUnderlying t = none := by
  unfold Store.nullableUnderlying
  dsimp only
  refine if_neg fun hd => ?_
  have hf : s.form t = .named .interfaceType (some Core.nullable) (s.info t).arguments := by
    rw [← hd]
    exact TypeInfo.form_of_isInterface ht
  obtain ⟨own, hown, -⟩ := hs.constructed hf
  rw [hs.form_nullable] at hown
  cases hown

/-- **A scoped store**: what stands above a type mentions only parameters that the type mentions. -/
def Scoped (s : Store) : Prop :=
  ∀ t u, u ∈ (s.info t).above → ∀ q, s.Mentions u q → s.Mentions t q

/-! ### Appending a row -/

section Add

variable (s : Store) (row : TypeInfo)

theorem next_not_holds : ¬ s.Holds s.next :=
  Nat.lt_irrefl _

theorem holds_add {t : TypeId} : (s.add row).2.Holds t ↔ s.Holds t ∨ t = s.next := by
  unfold Holds
  rw [size_add, Nat.lt_succ_iff_lt_or_eq]
  refine or_congr_right ⟨fun h => ?_, fun h => ?_⟩
  · cases t
    exact congrArg TypeId.mk h
  · rw [h]
    rfl

theorem info_add {t : TypeId} (h : t ≠ s.next) : (s.add row).2.info t = s.info t := by
  by_cases ht : s.Holds t
  · exact info_add_of_lt row ht
  · rw [info_of_not_holds ht, info_of_not_holds]
    rw [holds_add]
    exact not_or.mpr ⟨ht, h⟩

theorem form_add_next : (s.add row).2.form s.next = row.form :=
  congrArg TypeInfo.form (info_add_next s row)

theorem form_add {t : TypeId} (h : t ≠ s.next) : (s.add row).2.form t = s.form t :=
  congrArg TypeInfo.form (info_add s row h)

variable {s} in
theorem Holds.ne_next {t : TypeId} (h : s.Holds t) : t ≠ s.next := by
  rintro rfl
  exact s.next_not_holds h

theorem extends_add : s.Extends (s.add row).2 :=
  ⟨by rw [size_add]; exact Nat.le_succ _, fun ht => info_add s row ht.ne_next⟩

end Add

/-- **A row may be appended** if its form is well formed and no type is there that would have to be
the same. -/
theorem Formed.add {s : Store} (h : s.Formed) {row : TypeInfo}
    (hat : (s.add row).2.FormedAt s.next) (hnew : row.form.IsMade → ∀ u, s.form u ≠ row.form) :
    (s.add row).2.Formed := by
  have hnext : ∀ t, (s.add row).2.Holds t → ¬ s.Holds t → t = s.next := fun t ht hold =>
    ((holds_add s row).mp ht).resolve_left hold
  refine h.of_extends (extends_add s row) (fun t ht hold => hnext t ht hold ▸ hat) ?_
  intro t u hold hf hmade
  have ht : (s.add row).2.Holds t := holds_of_form_ne fun hcon => by
    rw [hcon] at hmade
    cases hmade
  obtain rfl := hnext t ht hold
  rw [form_add_next] at hf hmade
  by_contra hu
  rw [form_add s row (Ne.symm hu)] at hf
  exact hnew hmade u hf.symm

/-- **A well-formed store stays well formed when it grows**, if its forms do and if what the new
types point to is held. -/
theorem WellFormed.of_extends {s s' : Store} (h : s.WellFormed) (hext : s.Extends s')
    (hformed : s'.Formed)
    (habove : ∀ t, s'.Holds t → ¬ s.Holds t → ∀ u ∈ (s'.info t).above, s'.Holds u)
    (hcons : ∀ t, s'.Holds t → ¬ s.Holds t → ∀ u ∈ (s'.info t).constraints, s'.Holds u)
    (hrebound : s'.rebound = s.rebound) : s'.WellFormed := by
  have hcore : ∀ {u f}, u.index ≤ Core.delegate.index → s.form u = f → s'.form u = f :=
    fun hu hf => (hext.form_eq (Nat.lt_of_le_of_lt hu h.core_lt_size)).trans hf
  have hunheld : ∀ {t}, ¬ s'.Holds t → (s'.info t).above = [] ∧ (s'.info t).constraints = [] :=
    fun ht => by
      rw [info_of_not_holds ht]
      exact ⟨rfl, rfl⟩
  refine ⟨hformed, ?_, ?_, ?_, Nat.lt_of_lt_of_le h.core_lt_size hext.size_le,
    hcore (by decide) h.form_object, hcore (by decide) h.form_valueType,
    hcore (by decide) h.form_array, hcore (by decide) h.form_nullable,
    hcore (by decide) h.form_enumerableOf⟩
  · intro t u hu
    by_cases ht : s.Holds t
    · rw [hext.info_eq ht] at hu
      exact hext.holds (h.holds_above hu)
    · by_cases ht' : s'.Holds t
      · exact habove t ht' ht u hu
      · rw [(hunheld ht').1] at hu
        cases hu
  · intro t u hu
    by_cases ht : s.Holds t
    · rw [hext.info_eq ht] at hu
      exact hext.holds (h.holds_constraint hu)
    · by_cases ht' : s'.Holds t
      · exact hcons t ht' ht u hu
      · rw [(hunheld ht').2] at hu
        cases hu
  · intro entry hentry t ht
    rw [hrebound] at hentry
    exact hext.holds (h.holds_rebound hentry t ht)

/-- A row that points to nothing unknown may be appended to a well-formed store. -/
theorem WellFormed.add {s : Store} (h : s.WellFormed) {row : TypeInfo}
    (hformed : (s.add row).2.Formed) (habove : ∀ u ∈ row.above, s.Holds u)
    (hcons : ∀ u ∈ row.constraints, s.Holds u) : (s.add row).2.WellFormed := by
  have hext := extends_add s row
  have hnew : ∀ t, (s.add row).2.Holds t → ¬ s.Holds t → (s.add row).2.info t = row := by
    intro t ht hold
    rw [((holds_add s row).mp ht).resolve_left hold, info_add_next]
  refine h.of_extends hext hformed (fun t ht hold u hu => ?_) (fun t ht hold u hu => ?_) rfl
  · rw [hnew t ht hold] at hu
    exact hext.holds (habove u hu)
  · rw [hnew t ht hold] at hu
    exact hext.holds (hcons u hu)

theorem Scoped.add {s : Store} (h : s.Scoped) (hs : s.WellFormed) {row : TypeInfo}
    (habove : ∀ u ∈ row.above, s.Holds u ∧ ∀ q, s.Mentions u q → (s.add row).2.Mentions s.next q) :
    (s.add row).2.Scoped := by
  have hext := extends_add s row
  intro t u hu q hq
  by_cases ht : t = s.next
  · subst ht
    rw [info_add_next] at hu
    obtain ⟨hheld, himp⟩ := habove u hu
    exact himp q ((hext.mentions_iff hs.toFormed hheld).mp hq)
  · rw [info_add s row ht] at hu
    by_cases hheld : s.Holds t
    · rw [hext.mentions_iff hs.toFormed hheld]
      exact h t u hu q ((hext.mentions_iff hs.toFormed (hs.holds_above hu)).mp hq)
    · rw [info_of_not_holds hheld] at hu
      cases hu

/-! ### Changing a row -/

/-- A row is changed, and what a type is made of stays. -/
structure SameForms (s s' : Store) : Prop where
  /-- No type is added. -/
  size_eq : s'.size = s.size
  /-- Forms stay. -/
  form_eq : ∀ t, s'.form t = s.form t
  /-- Definitions stay. -/
  definition_eq : ∀ t, (s'.info t).definition = (s.info t).definition
  /-- Arguments stay. -/
  arguments_eq : ∀ t, (s'.info t).arguments = (s.info t).arguments

namespace SameForms

variable {s s' : Store}

theorem holds_iff (h : s.SameForms s') {t : TypeId} : s'.Holds t ↔ s.Holds t := by
  rw [Holds, Holds, h.size_eq]

theorem parts_eq (h : s.SameForms s') (t : TypeId) : s'.parts t = s.parts t :=
  congrArg Form.parts (h.form_eq t)

theorem formed (h : s.SameForms s') (hs : s.Formed) : s'.Formed := by
  refine .of_formedAt (fun t => (hs.formedAt t).transfer (h.form_eq t) ?_ ?_) fun {t u} hf hmade =>
    ?_
  · rintro ⟨hdefinition, harguments⟩
    exact ⟨(h.definition_eq t).trans hdefinition, (h.arguments_eq t).trans harguments⟩
  · exact fun hf _ => (h.form_eq _).trans hf
  · rw [h.form_eq] at hf hmade
    rw [h.form_eq] at hf
    exact hs.made_once hf hmade

/-- What a type mentions stays. -/
theorem mentions_iff (h : s.SameForms s') {t q : TypeId} : s'.Mentions t q ↔ s.Mentions t q := by
  constructor
  · intro hm
    induction hm with
    | self hq => exact .self (h.form_eq _ ▸ hq)
    | part hu _ ih =>
      rw [h.parts_eq] at hu
      exact .part hu ih
  · intro hm
    induction hm with
    | self hq => exact .self ((h.form_eq _).trans hq)
    | part hu _ ih =>
      refine .part ?_ ih
      rw [h.parts_eq]
      exact hu

end SameForms

theorem info_edit_self {s : Store} {t : TypeId} (change : TypeInfo → TypeInfo) (h : s.Holds t) :
    (s.edit t change).info t = change (s.info t) := by
  have h' : t.index < s.types.size := h
  simp [edit, info?, Store.info, Array.getElem_modify, h']

/-- A row is changed, or it is not there to be changed. -/
theorem info_edit_cases (s : Store) (t : TypeId) (change : TypeInfo → TypeInfo) (u : TypeId) :
    (s.edit t change).info u = s.info u ∨
      (u = t ∧ s.Holds t ∧ (s.edit t change).info u = change (s.info u)) := by
  by_cases hu : t = u
  · subst hu
    by_cases ht : s.Holds t
    · exact .inr ⟨rfl, ht, info_edit_self change ht⟩
    · refine .inl ?_
      rw [info_of_not_holds ht, info_of_not_holds]
      rw [Holds, size_edit]
      exact ht
  · exact .inl (info_edit_of_ne s change hu)

/-- An edit that keeps the form of a row keeps all forms. -/
theorem sameForms_edit {s : Store} {t : TypeId} {change : TypeInfo → TypeInfo}
    (h : ∀ info, (change info).form = info.form ∧ (change info).definition = info.definition ∧
      (change info).arguments = info.arguments) : s.SameForms (s.edit t change) := by
  refine ⟨size_edit s t change, fun u => ?_, fun u => ?_, fun u => ?_⟩ <;>
    rcases info_edit_cases s t change u with hu | ⟨-, -, hu⟩
  · exact congrArg TypeInfo.form hu
  · exact (congrArg TypeInfo.form hu).trans (h _).1
  · rw [hu]
  · rw [hu, (h _).2.1]
  · rw [hu]
  · rw [hu, (h _).2.2]

/-- What points to held types may be changed. -/
theorem WellFormed.edit {s : Store} (h : s.WellFormed) {t : TypeId}
    {change : TypeInfo → TypeInfo} (hsame : s.SameForms (s.edit t change))
    (habove : ∀ u ∈ (change (s.info t)).above, s.Holds u)
    (hcons : ∀ u ∈ (change (s.info t)).constraints, s.Holds u) :
    (s.edit t change).WellFormed := by
  refine ⟨hsame.formed h.toFormed, ?_, ?_, ?_, ?_, ?_, ?_, ?_, ?_, ?_⟩
  · intro u v hv
    rw [hsame.holds_iff]
    rcases info_edit_cases s t change u with hu | ⟨rfl, -, hu⟩ <;> rw [hu] at hv
    · exact h.holds_above hv
    · exact habove v hv
  · intro u v hv
    rw [hsame.holds_iff]
    rcases info_edit_cases s t change u with hu | ⟨rfl, -, hu⟩ <;> rw [hu] at hv
    · exact h.holds_constraint hv
    · exact hcons v hv
  · intro entry hentry u hu
    rw [hsame.holds_iff]
    exact h.holds_rebound hentry u hu
  · rw [size_edit]
    exact h.core_lt_size
  · rw [hsame.form_eq]
    exact h.form_object
  · rw [hsame.form_eq]
    exact h.form_valueType
  · rw [hsame.form_eq]
    exact h.form_array
  · rw [hsame.form_eq]
    exact h.form_nullable
  · rw [hsame.form_eq]
    exact h.form_enumerableOf

theorem Scoped.edit {s : Store} (h : s.Scoped) {t : TypeId} {change : TypeInfo → TypeInfo}
    (hsame : s.SameForms (s.edit t change))
    (habove : ∀ u ∈ (change (s.info t)).above, ∀ q, s.Mentions u q → s.Mentions t q) :
    (s.edit t change).Scoped := by
  intro u v hv q hq
  rw [hsame.mentions_iff] at hq ⊢
  rcases info_edit_cases s t change u with hu | ⟨rfl, -, hu⟩ <;> rw [hu] at hv
  · exact h u v hv q hq
  · exact habove v hv q hq

/-- Only the rows and the parameters that were made again matter to a well-formed store. -/
theorem WellFormed.of_types_eq {s s' : Store} (h : s.WellFormed) (htypes : s'.types = s.types)
    (hrebound : ∀ {entry}, entry ∈ s'.rebound → ∀ t ∈ entry.2.2, s.Holds t) : s'.WellFormed := by
  cases s
  cases s'
  cases htypes
  exact ⟨⟨h.holds_part, h.height_part, h.part_lt, h.own_parameter, h.parameter_own, h.constructed,
    h.rank_pos, h.made_once, h.unnamed⟩, h.holds_above, h.holds_constraint, hrebound,
    h.core_lt_size, h.form_object, h.form_valueType, h.form_array, h.form_nullable,
    h.form_enumerableOf⟩

theorem sameForms_of_types_eq {s s' : Store} (h : s'.types = s.types) : s.SameForms s' := by
  cases s
  cases s'
  cases h
  exact ⟨rfl, fun _ => rfl, fun _ => rfl, fun _ => rfl⟩

theorem Scoped.of_types_eq {s s' : Store} (h : s.Scoped) (htypes : s'.types = s.types) :
    s'.Scoped := by
  have hsame := sameForms_of_types_eq htypes
  have hinfo : s'.info = s.info := by
    funext t
    simp only [info, info?, htypes]
  intro t u hu q hq
  rw [hinfo] at hu
  rw [hsame.mentions_iff] at hq ⊢
  exact h t u hu q hq

theorem extends_of_types_eq {s s' : Store} (h : s'.types = s.types) : s.Extends s' := by
  refine ⟨Nat.le_of_eq ?_, fun _ => ?_⟩
  · rw [size, size, h]
  · simp only [info, info?, h]

/-- Constraints do not change what a type is made of, and nothing stands above them. -/
theorem sameForms_setConstraints (s : Store) (t : TypeId) (flags : Flags)
    (constraints : List TypeId) : s.SameForms (s.setConstraints t flags constraints) := by
  refine sameForms_edit fun info => ?_
  unfold TypeInfo.form
  cases hshape : info.shape <;> simp [hshape]

theorem WellFormed.setConstraints {s : Store} (h : s.WellFormed) {t : TypeId} {flags : Flags}
    {constraints : List TypeId} (hheld : ∀ c ∈ constraints, s.Holds c) :
    (s.setConstraints t flags constraints).WellFormed := by
  refine h.edit (sameForms_setConstraints s t flags constraints) ?_ ?_
  · intro u hu
    refine h.holds_above (t := t) ?_
    split at hu <;> exact hu
  · intro u hu
    split at hu
    · exact hheld u hu
    · exact h.holds_constraint hu

theorem Scoped.setConstraints {s : Store} (h : s.Scoped) {t : TypeId} {flags : Flags}
    {constraints : List TypeId} : (s.setConstraints t flags constraints).Scoped := by
  refine h.edit (sameForms_setConstraints s t flags constraints) ?_
  intro u hu
  refine h t u ?_
  split at hu <;> exact hu

/-! ### Rows of parameters -/

theorem size_addParameters (owner : Owner) (position : Nat) (names : List String) (s : Store) :
    (addParameters owner position names s).2.size = s.size + names.length := by
  induction names generalizing position s with
  | nil => rfl
  | cons name names ih =>
    simp only [addParameters, ih, size_add, List.length_cons]
    omega

theorem extends_addParameters (owner : Owner) (position : Nat) (names : List String) (s : Store) :
    s.Extends (addParameters owner position names s).2 := by
  induction names generalizing position s with
  | nil => exact .refl s
  | cons name names ih => exact (extends_add s _).trans (ih _ _)

/-- The parameters are made in order, at the end of the store. -/
theorem getElem?_addParameters (owner : Owner) (position : Nat) (names : List String) (s : Store)
    (k : Nat) : (addParameters owner position names s).1[k]? =
      if k < names.length then some ⟨s.size + k⟩ else none := by
  induction names generalizing position s k with
  | nil => simp [addParameters]
  | cons name names ih =>
    cases k with
    | zero => simp [addParameters, add, next, size]
    | succ k =>
      simp only [addParameters, List.getElem?_cons_succ, ih, size_add, List.length_cons]
      simp only [Nat.add_lt_add_iff_right, Nat.add_assoc, Nat.add_comm 1]

theorem length_addParameters (owner : Owner) (position : Nat) (names : List String) (s : Store) :
    (addParameters owner position names s).1.length = names.length := by
  induction names generalizing position s with
  | nil => rfl
  | cons name names ih => simp [addParameters, ih]

/-- The row of each parameter that was made. -/
theorem info_addParameters (owner : Owner) (position : Nat) (names : List String) (s : Store)
    {k : Nat} (hk : k < names.length) :
    (addParameters owner position names s).2.info ⟨s.size + k⟩ =
      parameterInfo names[k] owner (position + k) := by
  induction names generalizing position s k with
  | nil => cases hk
  | cons name names ih =>
    cases k with
    | zero =>
      have hheld : (s.add (parameterInfo name owner position)).2.Holds s.next :=
        (holds_add s _).mpr (.inr rfl)
      exact ((extends_addParameters owner _ names _).info_eq hheld).trans
        (info_add_next s _)
    | succ k =>
      have h := ih (position + 1) (s.add (parameterInfo name owner position)).2
        (Nat.lt_of_succ_lt_succ hk)
      rw [size_add, Nat.add_right_comm s.size 1 k, Nat.add_right_comm position 1 k] at h
      exact h

/-- A type that is held after parameters were made was held before, or is one of them. -/
theorem holds_addParameters {owner : Owner} {position : Nat} {names : List String} {s : Store}
    {t : TypeId} (h : (addParameters owner position names s).2.Holds t) :
    s.Holds t ∨ ∃ k < names.length, t = ⟨s.size + k⟩ := by
  rw [Holds, size_addParameters] at h
  by_cases ht : s.Holds t
  · exact .inl ht
  · have hle : s.size ≤ t.index := Nat.le_of_not_lt ht
    refine .inr ⟨t.index - s.size, by omega, ?_⟩
    have hindex : t.index = s.size + (t.index - s.size) := by omega
    cases t
    exact congrArg TypeId.mk hindex

/-! ### Rows of a definition -/

section Define

variable (s : Store) (name : String) (kind : DefinitionKind) (names : List String)

/-- The own parameters of a definition that is made next. -/
def ownParameters : List TypeId :=
  (addParameters (.type s.next) 0 names (s.add (definitionInfo name kind)).2).1

theorem getElem?_ownParameters (k : Nat) :
    (s.ownParameters name kind names)[k]? =
      if k < names.length then some ⟨s.size + 1 + k⟩ else none := by
  rw [ownParameters, getElem?_addParameters, size_add]

theorem size_define : (s.define name kind names).2.size = s.size + 1 + names.length := by
  have h := size_addParameters (.type s.next) 0 names (s.add (definitionInfo name kind)).2
  rw [size_add] at h
  refine Eq.trans ?_ h
  exact size_edit _ _ _

theorem mem_ownParameters {k : Nat} {u : TypeId}
    (h : (s.ownParameters name kind names)[k]? = some u) :
    k < names.length ∧ u = ⟨s.size + 1 + k⟩ := by
  rw [getElem?_ownParameters] at h
  split at h
  · exact ⟨‹_›, (Option.some.inj h).symm⟩
  · cases h

/-- The row of the definition. -/
theorem info_define_next : (s.define name kind names).2.info s.next =
    { definitionInfo name kind with arguments := s.ownParameters name kind names } := by
  have hext := extends_addParameters (.type s.next) 0 names (s.add (definitionInfo name kind)).2
  have hnext : (s.add (definitionInfo name kind)).2.Holds s.next := (holds_add s _).mpr (.inr rfl)
  refine (info_edit_self _ (hext.holds hnext)).trans ?_
  rw [hext.info_eq hnext, info_add_next]
  rfl

theorem info_define_of_ne {u : TypeId} (h : u ≠ s.next) : (s.define name kind names).2.info u =
    (addParameters (.type s.next) 0 names (s.add (definitionInfo name kind)).2).2.info u :=
  info_edit_of_ne _ _ h.symm

/-- The row of an own parameter. -/
theorem info_define_own {k : Nat} {u : TypeId}
    (h : (s.ownParameters name kind names)[k]? = some u) :
    ∃ n, (s.define name kind names).2.info u = parameterInfo n (.type s.next) k := by
  obtain ⟨hk, rfl⟩ := mem_ownParameters s name kind names h
  have hn := info_addParameters (.type s.next) 0 names (s.add (definitionInfo name kind)).2 hk
  rw [size_add, Nat.zero_add] at hn
  refine ⟨names[k], (info_define_of_ne s name kind names ?_).trans hn⟩
  intro hcon
  have hindex : s.size + 1 + k = s.size := congrArg TypeId.index hcon
  omega

theorem extends_define : s.Extends (s.define name kind names).2 := by
  refine ⟨by rw [size_define]; omega, fun {u} hu => ?_⟩
  have hext := extends_addParameters (.type s.next) 0 names (s.add (definitionInfo name kind)).2
  rw [info_define_of_ne s name kind names hu.ne_next,
    hext.info_eq ((holds_add s _).mpr (.inl hu)), info_add s _ hu.ne_next]

/-- **What is held after a definition**: what was held before, the definition, and its own
parameters. -/
theorem holds_define_cases {u : TypeId} (h : (s.define name kind names).2.Holds u) :
    s.Holds u ∨ u = s.next ∨ ∃ k : Nat, (s.ownParameters name kind names)[k]? = some u := by
  rw [Holds, size_define] at h
  by_cases hu : s.Holds u
  · exact .inl hu
  by_cases hnext : u = s.next
  · exact .inr (.inl hnext)
  refine .inr (.inr ⟨u.index - (s.size + 1), ?_⟩)
  have hne : u.index ≠ s.size := fun hcon => hnext (congrArg TypeId.mk hcon)
  have hle : s.size ≤ u.index := Nat.le_of_not_lt hu
  rw [getElem?_ownParameters, if_pos (by omega)]
  exact congrArg (some ∘ TypeId.mk) (by omega)

/-- The form of a definition, by its kind. -/
theorem form_definitionInfo (arguments : List TypeId) :
    ∃ shape, { definitionInfo name kind with arguments }.form = .named shape none arguments := by
  cases kind
  · exact ⟨.classType, rfl⟩
  · exact ⟨.classType, rfl⟩
  · exact ⟨.interfaceType, rfl⟩
  · exact ⟨.structType, rfl⟩

/-- The forms after a definition. -/
theorem form_define_cases (u : TypeId) :
    (u ≠ s.next ∧ (s.define name kind names).2.form u = s.form u) ∨
      (u = s.next ∧ ∃ shape, (s.define name kind names).2.form u =
        .named shape none (s.ownParameters name kind names)) ∨
      ∃ k : Nat, (s.ownParameters name kind names)[k]? = some u ∧
        (s.define name kind names).2.form u = .parameter (.type s.next) k := by
  by_cases hnext : u = s.next
  · obtain ⟨shape, hshape⟩ := form_definitionInfo name kind (s.ownParameters name kind names)
    subst hnext
    have hinfo := info_define_next s name kind names
    exact .inr (.inl ⟨rfl, shape, (congrArg TypeInfo.form hinfo).trans hshape⟩)
  by_cases hheld : (s.define name kind names).2.Holds u
  · rcases holds_define_cases s name kind names hheld with h | h | ⟨k, hk⟩
    · exact .inl ⟨hnext, (extends_define s name kind names).form_eq h⟩
    · exact absurd h hnext
    · obtain ⟨n, hn⟩ := info_define_own s name kind names hk
      exact .inr (.inr ⟨k, hk, congrArg TypeInfo.form hn⟩)
  · refine .inl ⟨hnext, ?_⟩
    rw [form_of_not_holds hheld, form_of_not_holds]
    exact fun h => hheld ((extends_define s name kind names).holds h)

/-- **A definition keeps the forms well formed.** -/
theorem Formed.define (h : s.Formed) : (s.define name kind names).2.Formed := by
  obtain ⟨shape, hshape⟩ := form_definitionInfo name kind (s.ownParameters name kind names)
  have hdef : (s.define name kind names).2.form s.next =
      .named shape none (s.ownParameters name kind names) :=
    (congrArg TypeInfo.form (info_define_next s name kind names)).trans hshape
  have hown : ∀ {k : Nat} {a}, (s.ownParameters name kind names)[k]? = some a →
      (s.define name kind names).2.form a = .parameter (.type s.next) k := by
    intro k a hk
    obtain ⟨n, hn⟩ := info_define_own s name kind names hk
    exact congrArg TypeInfo.form hn
  refine h.of_extends (extends_define s name kind names) (fun t ht hold => ?_) ?_
  · rcases (holds_define_cases s name kind names ht).resolve_left hold with rfl | ⟨k, hk⟩
    · exact .definition hdef hown
    · obtain ⟨n, hn⟩ := info_define_own s name kind names hk
      refine .ownParameter (hown hk) hdef hk ?_
      rw [hn]
      exact ⟨rfl, rfl⟩
  · -- a definition and its parameters are not made from parts
    intro t u hold _ hmade
    have ht : (s.define name kind names).2.Holds t := holds_of_form_ne fun hcon => by
      rw [hcon] at hmade
      cases hmade
    rcases (holds_define_cases s name kind names ht).resolve_left hold with rfl | ⟨k, hk⟩
    · rw [hdef] at hmade
      cases hmade
    · rw [hown hk] at hmade
      cases hmade

/-- The row of a definition points to nothing but roots. -/
theorem mem_above_definitionInfo {arguments : List TypeId} {u : TypeId}
    (h : u ∈ { definitionInfo name kind with arguments }.above) :
    u = Core.object ∨ u = Core.valueType := by
  cases kind <;> simp [definitionInfo, TypeInfo.above] at h
  · exact .inl h
  · exact .inl h
  · exact .inr h

variable {s} in
/-- What the rows of a definition point to. -/
theorem mem_above_define {t u : TypeId} (h : u ∈ ((s.define name kind names).2.info t).above) :
    (s.Holds t ∧ u ∈ (s.info t).above) ∨ u = Core.object ∨ u = Core.valueType := by
  by_cases hheld : (s.define name kind names).2.Holds t
  · rcases holds_define_cases s name kind names hheld with ht | rfl | ⟨k, hk⟩
    · rw [(extends_define s name kind names).info_eq ht] at h
      exact .inl ⟨ht, h⟩
    · rw [info_define_next] at h
      exact .inr (mem_above_definitionInfo name kind h)
    · obtain ⟨n, hn⟩ := info_define_own s name kind names hk
      rw [hn] at h
      cases h
  · rw [info_of_not_holds hheld] at h
    cases h

theorem rebound_addParameters (owner : Owner) (position : Nat) (names : List String) (s : Store) :
    (addParameters owner position names s).2.rebound = s.rebound := by
  induction names generalizing position s with
  | nil => rfl
  | cons name names ih => exact (ih _ _).trans rfl

theorem WellFormed.define {s : Store} (h : s.WellFormed) :
    (s.define name kind names).2.WellFormed := by
  have hext := extends_define s name kind names
  have hcore : ∀ {u}, u.index ≤ Core.delegate.index → s.Holds u := fun hu =>
    Nat.lt_of_le_of_lt hu h.core_lt_size
  refine h.of_extends hext (h.toFormed.define s name kind names) (fun t _ hold u hu => ?_)
    (fun t ht hold u hu => ?_) (rebound_addParameters (.type s.next) 0 names _)
  · rcases mem_above_define name kind names hu with ⟨ht, -⟩ | rfl | rfl
    · exact absurd ht hold
    · exact hext.holds (hcore (by decide))
    · exact hext.holds (hcore (by decide))
  · rcases (holds_define_cases s name kind names ht).resolve_left hold with rfl | ⟨k, hk⟩
    · rw [info_define_next] at hu
      cases kind <;> cases hu
    · obtain ⟨n, hn⟩ := info_define_own s name kind names hk
      rw [hn] at hu
      cases hu

/-- A plain class mentions nothing. -/
theorem not_mentions_of_plain {s : Store} {t q : TypeId} {shape : Shape}
    (h : s.form t = .named shape none []) : ¬ s.Mentions t q := by
  refine Mentions.not_of_parts_eq_nil (by rw [parts, h]; rfl) fun o k hf => ?_
  rw [h] at hf
  cases hf

theorem Scoped.define {s : Store} (h : s.Scoped) (hs : s.WellFormed) :
    (s.define name kind names).2.Scoped := by
  have hext := extends_define s name kind names
  have hs' := hs.define name kind names
  intro t u hu q hq
  rcases mem_above_define name kind names hu with ⟨ht, hu⟩ | rfl | rfl
  · rw [hext.mentions_iff hs.toFormed ht]
    exact h t u hu q ((hext.mentions_iff hs.toFormed (hs.holds_above hu)).mp hq)
  · exact absurd hq (not_mentions_of_plain hs'.form_object)
  · exact absurd hq (not_mentions_of_plain hs'.form_valueType)

end Define

/-! ### Parameters of a method -/

/-- A parameter row of a method points to nothing. -/
theorem Formed.add_parameter {s : Store} (h : s.Formed) (name : String) (m : MethodToken)
    (position : Nat) : (s.add (parameterInfo name (.method m) position)).2.Formed := by
  refine h.add (.methodParameter (form_add_next s _) ?_) (by rintro ⟨⟩)
  rw [info_add_next]
  exact ⟨rfl, rfl⟩

/-- The parameters of a method may be made at any time. -/
theorem WellFormed.addParameters {s : Store} (h : s.WellFormed) (m : MethodToken) (position : Nat)
    (names : List String) : (addParameters (.method m) position names s).2.WellFormed := by
  induction names generalizing position s with
  | nil => exact h
  | cons name names ih =>
    refine ih (h.add (h.toFormed.add_parameter name m position) ?_ ?_) _
    · rintro u ⟨⟩
    · rintro u ⟨⟩

theorem Scoped.addParameters {s : Store} (h : s.Scoped) (hs : s.WellFormed) (m : MethodToken)
    (position : Nat) (names : List String) :
    (addParameters (.method m) position names s).2.Scoped := by
  induction names generalizing position s with
  | nil => exact h
  | cons name names ih =>
    refine ih (h.add hs ?_) (hs.add (hs.toFormed.add_parameter name m position) ?_ ?_) _
    · rintro u ⟨⟩
    · rintro u ⟨⟩
    · rintro u ⟨⟩

end Store

end CallSite
