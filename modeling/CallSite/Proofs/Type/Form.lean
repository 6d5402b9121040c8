import CallSite.Type.Query
import Mathlib.Logic.Basic
import Mathlib.Tactic.ByContra

/-!
# What a type is made of

The **form** of a type is what never changes of its row: the kind of type it is, its definition and
arguments, its element, or its place among the parameters of an owner. The parts of a form are types
that were made before, so whatever is built from forms is defined by descent.

* `Store.form`, `Store.parts` – the form of a type and its parts.
* `Store.Formed` – what holds of the forms in a store, above all that types are **made once**: two
  constructed types, arrays or references of the same form are the same type.
* `Store.Formed.induction` – induction along the parts of a type.
* `Store.Mentions` – a type mentions a generic parameter.
* `Store.Extends` – a store holds what another one held, and perhaps more.
* `Store.FormedAt` – what holds of the form of one type, by its kind; `Store.Formed.of_formedAt` and
  `Store.Formed.of_extends` – the forms of a store are well formed if those of its types are.
-/

namespace CallSite

/-- **What a type is made of.** -/
inductive Form
  /-- A class, an interface or a value type: the definition it was constructed from, if any, and its
  arguments. -/
  | named (shape : Shape) (definition : Option TypeId) (arguments : List TypeId)
  /-- The arrays of an element. -/
  | array (element : TypeId) (rank : Nat)
  /-- The reference to an element. -/
  | reference (element : TypeId)
  /-- The generic parameter at a position of an owner. -/
  | parameter (owner : Owner) (position : Nat)
deriving DecidableEq

namespace Form

/-- The types that a type is made of. -/
def parts : Form → List TypeId
  | .named _ _ arguments => arguments
  | .array element _ => [element]
  | .reference element => [element]
  | .parameter _ _ => []

/-- The types of this form are made from their parts, and only once. -/
def IsMade : Form → Prop
  | .named _ definition _ => definition.isSome
  | .array _ _ => True
  | .reference _ => True
  | .parameter _ _ => False

instance : DecidablePred IsMade := fun f =>
  match f with
  | .named _ definition _ => inferInstanceAs (Decidable (definition.isSome = true))
  | .array _ _ => .isTrue trivial
  | .reference _ => .isTrue trivial
  | .parameter _ _ => .isFalse id

end Form

/-- The form that a row shows. -/
def TypeInfo.form (info : TypeInfo) : Form :=
  match info.shape with
  | .arrayType element rank => .array element rank
  | .byRefType element => .reference element
  | .parameter p => .parameter p.owner p.position
  | shape => .named shape info.definition info.arguments

namespace TypeInfo

variable {info : TypeInfo}

theorem parameter?_eq_some_iff {p : GenericParameter} :
    info.parameter? = some p ↔ info.shape = .parameter p := by
  unfold parameter?
  cases info.shape <;> simp

theorem form_of_parameter {p : GenericParameter} (h : info.shape = .parameter p) :
    info.form = .parameter p.owner p.position := by
  unfold form
  rw [h]

theorem form_eq_parameter_iff {owner : Owner} {position : Nat} :
    info.form = .parameter owner position ↔
      ∃ p, info.shape = .parameter p ∧ p.owner = owner ∧ p.position = position := by
  unfold form
  cases info.shape <;> simp

theorem form_eq_array_iff {element : TypeId} {rank : Nat} :
    info.form = .array element rank ↔ info.shape = .arrayType element rank := by
  unfold form
  cases info.shape <;> simp

theorem form_eq_reference_iff {element : TypeId} :
    info.form = .reference element ↔ info.shape = .byRefType element := by
  unfold form
  cases info.shape <;> simp

theorem form_eq_named_iff {shape : Shape} {definition : Option TypeId} {arguments : List TypeId} :
    info.form = .named shape definition arguments ↔
      info.shape = shape ∧ info.definition = definition ∧ info.arguments = arguments ∧
        (shape = .classType ∨ shape = .interfaceType ∨ shape = .structType) := by
  unfold form
  cases info.shape <;> simp <;> grind

/-- A named type is neither a parameter nor a reference. -/
theorem plain_of_form_eq_named {shape : Shape} {definition : Option TypeId}
    {arguments : List TypeId} (h : info.form = .named shape definition arguments) :
    info.isParameter = false ∧ info.isByRef = false := by
  obtain ⟨hshape, -, -, hkind⟩ := form_eq_named_iff.mp h
  rw [isParameter, isByRef, hshape]
  rcases hkind with rfl | rfl | rfl <;> exact ⟨rfl, rfl⟩

theorem isGeneric_iff : info.isGeneric ↔ info.arguments ≠ [] := by
  rw [isGeneric, Bool.not_eq_true', List.isEmpty_eq_false_iff]

/-- A definition has arguments of its own. -/
theorem isDefinition_iff :
    info.isDefinition ↔ info.definition = none ∧ info.arguments ≠ [] := by
  rw [isDefinition, Bool.and_eq_true, Option.isNone_iff_eq_none, isGeneric_iff]

theorem isDefinition_of_form {shape : Shape} {arguments : List TypeId}
    (h : info.form = .named shape none arguments) (hne : arguments ≠ []) : info.isDefinition := by
  obtain ⟨-, hnone, rfl, -⟩ := form_eq_named_iff.mp h
  exact isDefinition_iff.mpr ⟨hnone, hne⟩

/-- What has as many items as a definition has parameters is not empty. -/
theorem ne_nil_of_isDefinition {items : List TypeId} (h : info.isDefinition)
    (hlen : info.arguments.length = items.length) : items ≠ [] := by
  rintro rfl
  exact (isDefinition_iff.mp h).2 (List.eq_nil_of_length_eq_zero hlen)

theorem isInterface_iff : info.isInterface ↔ info.shape = .interfaceType := by
  unfold isInterface
  cases info.shape <;> simp

theorem isValueType_iff : info.isValueType ↔ info.shape = .structType := by
  unfold isValueType
  cases info.shape <;> simp

theorem isParameter_iff : info.isParameter ↔ ∃ p, info.shape = .parameter p := by
  unfold isParameter
  cases info.shape <;> simp

theorem isByRef_iff : info.isByRef ↔ ∃ e, info.shape = .byRefType e := by
  unfold isByRef
  cases info.shape <;> simp

theorem isParameter_eq_false_iff : info.isParameter = false ↔ ∀ p, info.shape ≠ .parameter p := by
  rw [← Bool.not_eq_true, isParameter_iff, not_exists]

theorem isByRef_eq_false_iff : info.isByRef = false ↔ ∀ e, info.shape ≠ .byRefType e := by
  rw [← Bool.not_eq_true, isByRef_iff, not_exists]

/-- What is no parameter does not have the shape of one. -/
theorem shape_ne_parameter (h : info.isParameter = false) {p : GenericParameter} :
    info.shape ≠ .parameter p :=
  isParameter_eq_false_iff.mp h p

/-- What is no reference does not have the shape of one. -/
theorem shape_ne_reference (h : info.isByRef = false) {e : TypeId} : info.shape ≠ .byRefType e :=
  isByRef_eq_false_iff.mp h e

/-- Whether a type is a parameter is seen by its form. -/
theorem isParameter_congr {info' : TypeInfo} (h : info'.form = info.form) :
    info'.isParameter = info.isParameter := by
  have himp : ∀ {i j : TypeInfo}, i.form = j.form → i.isParameter → j.isParameter := by
    intro i j hf hi
    obtain ⟨p, hp⟩ := isParameter_iff.mp hi
    obtain ⟨p', hp', -⟩ := form_eq_parameter_iff.mp (hf.symm.trans (form_of_parameter hp))
    exact isParameter_iff.mpr ⟨p', hp'⟩
  exact Bool.eq_iff_iff.mpr ⟨himp h, himp h.symm⟩

/-- A row that has neither a definition nor arguments. -/
def Unnamed (info : TypeInfo) : Prop :=
  info.definition = none ∧ info.arguments = []

/-- An interface is a named type. -/
theorem form_of_isInterface (h : info.isInterface) :
    info.form = .named .interfaceType info.definition info.arguments :=
  form_eq_named_iff.mpr ⟨isInterface_iff.mp h, rfl, rfl, .inr (.inl rfl)⟩

/-- A value type is a named type. -/
theorem form_of_isValueType (h : info.isValueType) :
    info.form = .named .structType info.definition info.arguments :=
  form_eq_named_iff.mpr ⟨isValueType_iff.mp h, rfl, rfl, .inr (.inr rfl)⟩

end TypeInfo

namespace Store

/-- The store holds the type. -/
def Holds (s : Store) (t : TypeId) : Prop :=
  t.index < s.size

/-- The form of a type. -/
def form (s : Store) (t : TypeId) : Form :=
  (s.info t).form

/-- The parts of a type: its element, or its arguments. -/
def parts (s : Store) (t : TypeId) : List TypeId :=
  (s.form t).parts

theorem element_mem_parts {s : Store} {t e : TypeId} {rank : Nat} (h : s.form t = .array e rank) :
    e ∈ s.parts t := by
  rw [parts, h]
  exact List.mem_singleton_self e

theorem target_mem_parts {s : Store} {t e : TypeId} (h : s.form t = .reference e) :
    e ∈ s.parts t := by
  rw [parts, h]
  exact List.mem_singleton_self e

theorem argument_mem_parts {s : Store} {t a : TypeId} {shape : Shape} {d : Option TypeId}
    {as : List TypeId} (h : s.form t = .named shape d as) (ha : a ∈ as) : a ∈ s.parts t := by
  rw [parts, h]
  exact ha

theorem info_of_not_holds {s : Store} {t : TypeId} (h : ¬ s.Holds t) :
    s.info t = TypeInfo.unknown := by
  have hle : s.types.size ≤ t.index := Nat.le_of_not_lt h
  simp [info, info?, Array.getElem?_eq_none hle]

/-- A type that the store does not hold looks like a class without arguments. -/
theorem form_of_not_holds {s : Store} {t : TypeId} (h : ¬ s.Holds t) :
    s.form t = .named .classType none [] := by
  rw [form, info_of_not_holds h]
  rfl

theorem holds_of_form_ne {s : Store} {t : TypeId} (h : s.form t ≠ .named .classType none []) :
    s.Holds t :=
  not_not.mp fun hn => h (form_of_not_holds hn)

theorem holds_of_isDefinition {s : Store} {d : TypeId} (h : (s.info d).isDefinition) :
    s.Holds d := by
  refine not_not.mp fun hcon => ?_
  rw [info_of_not_holds hcon] at h
  cases h

/-- How high a type stands above the parameters that it is made of. The own parameters of a
definition are made after it, so their place in the store is no measure. -/
def height (s : Store) (t : TypeId) : Nat :=
  match s.form t with
  | .parameter _ _ => 0
  | _ => t.index + 1

theorem height_le (s : Store) (t : TypeId) : s.height t ≤ t.index + 1 := by
  unfold height
  split
  · exact Nat.zero_le _
  · exact Nat.le_refl _

theorem height_of_form_ne {s : Store} {t : TypeId} (h : ∀ o k, s.form t ≠ .parameter o k) :
    s.height t = t.index + 1 := by
  unfold height
  split
  · exact absurd ‹_› (h _ _)
  · rfl

/-! ### Well-formed forms -/

/-- **What holds of the forms in a store.** -/
structure Formed (s : Store) : Prop where
  /-- Parts are held. -/
  holds_part : ∀ {t u}, u ∈ s.parts t → s.Holds u
  /-- Parts stand below what they are part of. -/
  height_part : ∀ {t u}, u ∈ s.parts t → s.height u < s.height t
  /-- What a type is made from was there before it. -/
  part_lt : ∀ {t u}, (s.form t).IsMade → u ∈ s.parts t → u.index < t.index
  /-- The arguments of a definition are its own parameters, in order. -/
  own_parameter : ∀ {t shape arguments}, s.form t = .named shape none arguments →
    ∀ {k a}, arguments[k]? = some a → s.form a = .parameter (.type t) k
  /-- A parameter of a type is among the own parameters of that type. -/
  parameter_own : ∀ {a t k}, s.form a = .parameter (.type t) k →
    ∃ shape arguments, s.form t = .named shape none arguments ∧ arguments[k]? = some a
  /-- A constructed type has the shape of its definition and as many arguments, which are not the
  own parameters of the definition. -/
  constructed : ∀ {t shape d arguments}, s.form t = .named shape (some d) arguments →
    ∃ own, s.form d = .named shape none own ∧ own.length = arguments.length ∧ own ≠ [] ∧
      own ≠ arguments
  /-- Arrays have a dimension. -/
  rank_pos : ∀ {t e rank}, s.form t = .array e rank → 1 ≤ rank
  /-- **Types are made once.** -/
  made_once : ∀ {t u}, s.form t = s.form u → (s.form t).IsMade → t = u
  /-- Only named types have a definition or arguments. -/
  unnamed : ∀ {t}, (∀ shape d arguments, s.form t ≠ .named shape d arguments) →
    (s.info t).definition = none ∧ (s.info t).arguments = []

namespace Formed

variable {s : Store}

/-- **Induction along the parts** of a type. -/
theorem induction (h : s.Formed) {P : TypeId → Prop}
    (step : ∀ t, (∀ u ∈ s.parts t, P u) → P t) (t : TypeId) : P t := by
  have hall : ∀ n t, s.height t < n → P t := by
    intro n
    induction n with
    | zero => exact fun t ht => absurd ht (Nat.not_lt_zero _)
    | succ n ih =>
      intro t ht
      exact step t fun u hu => ih u (Nat.lt_of_lt_of_le (h.height_part hu) (Nat.le_of_lt_succ ht))
  exact hall _ t (Nat.lt_succ_self _)

/-- The arguments of a type, which are its parts if it has any. -/
theorem parts_of_arguments (h : s.Formed) {t : TypeId} (hne : (s.info t).arguments ≠ []) :
    ∃ shape d, s.form t = .named shape d (s.info t).arguments := by
  by_contra hcon
  refine hne (h.unnamed fun shape d arguments hf => hcon ⟨shape, d, ?_⟩).2
  rw [hf, (TypeInfo.form_eq_named_iff.mp hf).2.2.1]

/-- The definition of a generic type, seen by its form. -/
theorem form_of_isDefinition (h : s.Formed) {d : TypeId} (hd : (s.info d).isDefinition) :
    ∃ shape, s.form d = .named shape none (s.info d).arguments := by
  obtain ⟨hnone, hne⟩ := TypeInfo.isDefinition_iff.mp hd
  obtain ⟨shape, d', hf⟩ := h.parts_of_arguments hne
  obtain rfl : d' = none := (TypeInfo.form_eq_named_iff.mp hf).2.1.symm.trans hnone
  exact ⟨shape, hf⟩

theorem mem_parts_of_mem_arguments (h : s.Formed) {t a : TypeId}
    (ha : a ∈ (s.info t).arguments) : a ∈ s.parts t := by
  obtain ⟨shape, d, hf⟩ := h.parts_of_arguments (List.ne_nil_of_mem ha)
  exact argument_mem_parts hf ha

end Formed

/-! ### The definition of a generic type -/

/-- The definition of a constructed type, and any other type itself. -/
def head (s : Store) (t : TypeId) : TypeId :=
  (s.info t).definition.getD t

theorem head_of_named {s : Store} {t : TypeId} {shape : Shape} {d : Option TypeId}
    {arguments : List TypeId} (h : s.form t = .named shape d arguments) :
    s.head t = d.getD t := by
  rw [head, (TypeInfo.form_eq_named_iff.mp h).2.1]

theorem arguments_of_named {s : Store} {t : TypeId} {shape : Shape} {d : Option TypeId}
    {arguments : List TypeId} (h : s.form t = .named shape d arguments) :
    (s.info t).arguments = arguments :=
  (TypeInfo.form_eq_named_iff.mp h).2.2.1

/-- **Types of one definition with the same arguments are the same type.** -/
theorem Formed.eq_of_head_eq {s : Store} (h : s.Formed) {t u : TypeId} {shape shape' : Shape}
    {d d' : Option TypeId} {arguments : List TypeId} (ht : s.form t = .named shape d arguments)
    (hu : s.form u = .named shape' d' arguments) (hhead : s.head t = s.head u) : t = u := by
  rw [head_of_named ht, head_of_named hu] at hhead
  cases d with
  | none =>
    cases d' with
    | none => exact hhead
    | some c =>
      obtain ⟨own, hown, -, -, hne⟩ := h.constructed hu
      obtain rfl : t = c := hhead
      rw [ht] at hown
      cases hown
      exact absurd rfl hne
  | some c =>
    obtain ⟨own, hown, -, -, hne⟩ := h.constructed ht
    cases d' with
    | none =>
      obtain rfl : c = u := hhead
      rw [hu] at hown
      cases hown
      exact absurd rfl hne
    | some c' =>
      obtain rfl : c = c' := hhead
      obtain ⟨own', hown', -⟩ := h.constructed hu
      rw [hown] at hown'
      cases hown'
      exact h.made_once (ht.trans hu.symm) (by rw [ht]; exact rfl)

/-- A generic type has a definition, which may be the type itself. -/
theorem Formed.genericDefinition_eq_some_iff {s : Store} (h : s.Formed) {t c : TypeId} :
    s.genericDefinition t = some c ↔ s.head t = c ∧ (s.info t).arguments ≠ [] := by
  unfold genericDefinition head
  cases hd : (s.info t).definition with
  | none =>
    simp only [TypeInfo.isDefinition, hd, TypeInfo.isGeneric]
    cases (s.info t).arguments <;> simp
  | some d =>
    simp only [hd, Option.some.injEq, Option.getD_some]
    refine ⟨fun he => ⟨he, ?_⟩, fun he => he.1⟩
    by_cases hnamed : ∃ shape d arguments, s.form t = .named shape d arguments
    · obtain ⟨shape, d', arguments, hf⟩ := hnamed
      obtain ⟨-, hd', rfl, -⟩ := TypeInfo.form_eq_named_iff.mp hf
      rw [hd] at hd'
      subst hd'
      obtain ⟨own, -, hlen, hne, -⟩ := h.constructed hf
      intro hnil
      rw [hnil] at hlen
      exact hne (List.eq_nil_of_length_eq_zero hlen)
    · have hnone := (h.unnamed fun shape d arguments hf => hnamed ⟨shape, d, arguments, hf⟩).1
      rw [hd] at hnone
      cases hnone

/-- **A generic type is known by its definition and its arguments.** -/
theorem Formed.eq_of_genericDefinition_eq {s : Store} (h : s.Formed) {t u d : TypeId}
    (ht : s.genericDefinition t = some d) (hu : s.genericDefinition u = some d)
    (harguments : (s.info t).arguments = (s.info u).arguments) : t = u := by
  obtain ⟨hhead, hne⟩ := h.genericDefinition_eq_some_iff.mp ht
  obtain ⟨hhead', hne'⟩ := h.genericDefinition_eq_some_iff.mp hu
  obtain ⟨shape, c, hf⟩ := h.parts_of_arguments hne
  obtain ⟨shape', c', hf'⟩ := h.parts_of_arguments hne'
  rw [← harguments] at hf'
  exact h.eq_of_head_eq hf hf' (hhead.trans hhead'.symm)

/-- A type has as many arguments as its definition, and the same shape. -/
theorem Formed.form_head {s : Store} (h : s.Formed) {t : TypeId} {shape : Shape}
    {d : Option TypeId} {arguments : List TypeId} (ht : s.form t = .named shape d arguments) :
    ∃ own, s.form (s.head t) = .named shape none own ∧ own.length = arguments.length := by
  rw [head_of_named ht]
  cases d with
  | none => exact ⟨arguments, ht, rfl⟩
  | some c =>
    obtain ⟨own, hown, hlen, -⟩ := h.constructed ht
    exact ⟨own, hown, hlen⟩

theorem nullableUnderlying_mem {s : Store} {t u : TypeId} (h : s.nullableUnderlying t = some u) :
    u ∈ (s.info t).arguments := by
  unfold nullableUnderlying at h
  dsimp only at h
  split at h
  · exact List.mem_of_mem_head? h
  · cases h

/-! ### Mentioning a parameter -/

/-- **A type mentions a generic parameter**: it is the parameter, or one of its parts mentions
it. -/
inductive Mentions (s : Store) : TypeId → TypeId → Prop
  /-- A parameter mentions itself. -/
  | self {q : TypeId} {o : Owner} {k : Nat} : s.form q = .parameter o k → Mentions s q q
  /-- What a part mentions. -/
  | part {t u q : TypeId} : u ∈ s.parts t → Mentions s u q → Mentions s t q

namespace Mentions

variable {s : Store} {t u q : TypeId}

/-- What is mentioned is a parameter. -/
theorem exists_parameter (h : s.Mentions t q) : ∃ p, (s.info q).shape = .parameter p := by
  induction h with
  | self hq =>
    obtain ⟨p, hp, -⟩ := TypeInfo.form_eq_parameter_iff.mp hq
    exact ⟨p, hp⟩
  | part _ _ ih => exact ih

/-- What is mentioned is held. -/
theorem holds (h : s.Mentions t q) : s.Holds q := by
  obtain ⟨p, hp⟩ := h.exists_parameter
  refine holds_of_form_ne ?_
  rw [form, TypeInfo.form_of_parameter hp]
  exact Form.noConfusion

theorem of_parameter {p : GenericParameter} (h : (s.info t).shape = .parameter p) :
    s.Mentions t t :=
  .self (TypeInfo.form_of_parameter h)

/-- A parameter mentions nothing but itself. -/
theorem eq_of_parameter {p : GenericParameter} (hp : (s.info t).shape = .parameter p)
    (h : s.Mentions t q) : q = t := by
  cases h with
  | self => rfl
  | part hu =>
    rw [parts, form, TypeInfo.form_of_parameter hp] at hu
    cases hu

/-- A type that has no parts and is no parameter mentions nothing. -/
theorem not_of_parts_eq_nil (hp : s.parts t = []) (hn : ∀ o k, s.form t ≠ .parameter o k) :
    ¬ s.Mentions t q := by
  rintro (⟨hq⟩ | ⟨hu, -⟩)
  · exact hn _ _ hq
  · rw [hp] at hu
    cases hu

end Mentions

/-- The own parameters of a definition are all that it mentions. -/
theorem Formed.mentions_definition {s : Store} (h : s.Formed) {d q : TypeId} {shape : Shape}
    {own : List TypeId} (hd : s.form d = .named shape none own) (hq : s.Mentions d q) :
    ∃ k : Nat, own[k]? = some q := by
  cases hq with
  | self hq =>
    rw [hd] at hq
    cases hq
  | @part _ u _ hu hq =>
    rw [parts, hd] at hu
    obtain ⟨k, hk⟩ : ∃ k : Nat, own[k]? = some u := List.mem_iff_getElem?.mp hu
    obtain ⟨p, hp, -⟩ := TypeInfo.form_eq_parameter_iff.mp (h.own_parameter hd hk)
    obtain rfl := hq.eq_of_parameter hp
    exact ⟨k, hk⟩

/-- What a type mentions, by its form. -/
theorem mentions_iff_of_form_ne {s : Store} {t q : TypeId} (h : ∀ o k, s.form t ≠ .parameter o k) :
    s.Mentions t q ↔ ∃ u ∈ s.parts t, s.Mentions u q := by
  refine ⟨fun hm => ?_, fun ⟨u, hu, hq⟩ => .part hu hq⟩
  cases hm with
  | self hq => exact absurd hq (h _ _)
  | part hu hq => exact ⟨_, hu, hq⟩

/-- **A type is open when it mentions a parameter**, if the search for one goes deep enough. -/
theorem Formed.isOpenWithin_iff {s : Store} (h : s.Formed) {depth : Nat} {t : TypeId}
    (hdepth : s.height t < depth) : s.isOpenWithin depth t ↔ ∃ q, s.Mentions t q := by
  induction depth generalizing t with
  | zero => exact absurd hdepth (Nat.not_lt_zero _)
  | succ depth ih =>
    have hpart : ∀ u ∈ s.parts t, (s.isOpenWithin depth u ↔ ∃ q, s.Mentions u q) := fun u hu =>
      ih (Nat.lt_of_lt_of_le (h.height_part hu) (Nat.le_of_lt_succ hdepth))
    have hopen : (∃ q, s.Mentions t q) ↔ (∃ o k, s.form t = .parameter o k) ∨
        ∃ u ∈ s.parts t, s.isOpenWithin depth u := by
      constructor
      · rintro ⟨q, hq⟩
        by_cases hf : ∃ o k, s.form t = .parameter o k
        · exact .inl hf
        · obtain ⟨u, hu, hq⟩ := (mentions_iff_of_form_ne fun o k hf' => hf ⟨o, k, hf'⟩).mp hq
          exact .inr ⟨u, hu, (hpart u hu).mpr ⟨q, hq⟩⟩
      · rintro (⟨o, k, hf⟩ | ⟨u, hu, hq⟩)
        · exact ⟨t, .self hf⟩
        · obtain ⟨q, hq⟩ := (hpart u hu).mp hq
          exact ⟨q, .part hu hq⟩
    rw [hopen, isOpenWithin]
    unfold parts form TypeInfo.form
    cases (s.info t).shape <;> simp [Form.parts]

theorem Formed.isOpen_iff {s : Store} (h : s.Formed) {t : TypeId} (ht : s.Holds t) :
    s.isOpen t ↔ ∃ q, s.Mentions t q :=
  h.isOpenWithin_iff (Nat.lt_succ_of_le (Nat.le_trans (s.height_le t) ht))

/-- A type that is not open mentions nothing. -/
theorem Formed.not_mentions_of_not_isOpen {s : Store} (h : s.Formed) {t : TypeId} (ht : s.Holds t)
    (hopen : s.isOpen t = false) (q : TypeId) : ¬ s.Mentions t q := by
  intro hq
  rw [(h.isOpen_iff ht).mpr ⟨q, hq⟩] at hopen
  cases hopen

/-! ### Stores that grow -/

/-- **A store holds what another one held**: rows were appended, and those that were there are as
they were. -/
structure Extends (s s' : Store) : Prop where
  /-- No type is lost. -/
  size_le : s.size ≤ s'.size
  /-- What was known of a type is what is known of it. -/
  info_eq : ∀ {t}, s.Holds t → s'.info t = s.info t

namespace Extends

variable {s s' s'' : Store}

theorem refl (s : Store) : s.Extends s :=
  ⟨Nat.le_refl _, fun _ => rfl⟩

theorem holds (h : s.Extends s') {t : TypeId} (ht : s.Holds t) : s'.Holds t :=
  Nat.lt_of_lt_of_le ht h.size_le

theorem trans (h : s.Extends s') (h' : s'.Extends s'') : s.Extends s'' :=
  ⟨Nat.le_trans h.size_le h'.size_le, fun ht => (h'.info_eq (h.holds ht)).trans (h.info_eq ht)⟩

theorem form_eq (h : s.Extends s') {t : TypeId} (ht : s.Holds t) : s'.form t = s.form t :=
  congrArg TypeInfo.form (h.info_eq ht)

theorem parts_eq (h : s.Extends s') {t : TypeId} (ht : s.Holds t) : s'.parts t = s.parts t :=
  congrArg Form.parts (h.form_eq ht)

theorem head_eq (h : s.Extends s') {t : TypeId} (ht : s.Holds t) : s'.head t = s.head t := by
  rw [head, head, h.info_eq ht]

/-- A form that is not the one of an unknown type shows that the type is held, so it stays. -/
theorem form_eq_of_ne (h : s.Extends s') {t : TypeId} {f : Form} (hf : s.form t = f)
    (hne : f ≠ .named .classType none []) : s'.form t = f :=
  (h.form_eq (holds_of_form_ne (by rwa [hf]))).trans hf

/-- What a type mentions does not change. -/
theorem mentions_iff (h : s.Extends s') (hs : s.Formed) {t q : TypeId} (ht : s.Holds t) :
    s'.Mentions t q ↔ s.Mentions t q := by
  constructor
  · intro hm
    induction hm with
    | self hq => exact .self (h.form_eq ht ▸ hq)
    | part hu _ ih =>
      rw [h.parts_eq ht] at hu
      exact .part hu (ih (hs.holds_part hu))
  · intro hm
    induction hm with
    | self hq => exact .self ((h.form_eq ht).trans hq)
    | part hu _ ih =>
      refine .part ?_ (ih (hs.holds_part hu))
      rw [h.parts_eq ht]
      exact hu

end Extends

/-! ### One type at a time -/

/-- **The form of one type is well formed**: a case for each kind of type. The forms of a store are
well formed when those of its types are and types are made once. -/
inductive FormedAt (s : Store) (t : TypeId) : Prop
  /-- The arguments of a definition are its own parameters, in order. -/
  | definition {shape : Shape} {own : List TypeId} (hform : s.form t = .named shape none own)
      (hown : ∀ {k : Nat} {a}, own[k]? = some a → s.form a = .parameter (.type t) k)
  /-- A constructed type is made from a definition, after its arguments, which are not the own
  parameters of the definition. -/
  | constructed {shape : Shape} {d : TypeId} {own arguments : List TypeId}
      (hform : s.form t = .named shape (some d) arguments)
      (hlt : ∀ a ∈ arguments, a.index < t.index) (hd : s.form d = .named shape none own)
      (hlength : own.length = arguments.length) (hnil : own ≠ []) (hne : own ≠ arguments)
  /-- An array is made after its element and has a dimension. -/
  | array {e : TypeId} {rank : Nat} (hform : s.form t = .array e rank) (hlt : e.index < t.index)
      (hrank : 1 ≤ rank) (hunnamed : (s.info t).Unnamed)
  /-- A reference is made after its element. -/
  | reference {e : TypeId} (hform : s.form t = .reference e) (hlt : e.index < t.index)
      (hunnamed : (s.info t).Unnamed)
  /-- A parameter of a type is among the own parameters of that type. -/
  | ownParameter {d : TypeId} {k : Nat} {shape : Shape} {own : List TypeId}
      (hform : s.form t = .parameter (.type d) k) (hd : s.form d = .named shape none own)
      (hk : own[k]? = some t) (hunnamed : (s.info t).Unnamed)
  /-- A parameter of a method stands for itself. -/
  | methodParameter {m : MethodToken} {k : Nat} (hform : s.form t = .parameter (.method m) k)
      (hunnamed : (s.info t).Unnamed)

/-- A part that was there before what it is part of stands below it. -/
theorem part_of_index_lt {s : Store} {t u : TypeId} (hf : s.form t ≠ .named .classType none [])
    (hparam : ∀ o k, s.form t ≠ .parameter o k) (hlt : u.index < t.index) :
    s.Holds u ∧ s.height u < s.height t := by
  refine ⟨Nat.lt_trans hlt (holds_of_form_ne hf), ?_⟩
  rw [height_of_form_ne hparam]
  exact Nat.lt_of_le_of_lt (s.height_le u) (Nat.succ_lt_succ hlt)

namespace FormedAt

variable {s s' : Store} {t : TypeId}

/-- The parts of a type are held and stand below it. -/
theorem part (h : s.FormedAt t) {u : TypeId} (hu : u ∈ s.parts t) :
    (s.Holds u ∧ s.height u < s.height t) ∧ ((s.form t).IsMade → u.index < t.index) := by
  cases h with
  | definition hf hown =>
    rw [parts, hf] at hu
    obtain ⟨k, hk⟩ : ∃ k : Nat, _ := List.mem_iff_getElem?.mp hu
    have hfu := hown hk
    refine ⟨⟨holds_of_form_ne (by rw [hfu]; exact Form.noConfusion), ?_⟩, fun hmade => ?_⟩
    · rw [height_of_form_ne (t := t) (by rw [hf]; exact fun _ _ => Form.noConfusion), height, hfu]
      exact Nat.succ_pos _
    · rw [hf] at hmade
      cases hmade
  | constructed hf hlt =>
    rw [parts, hf] at hu
    exact ⟨part_of_index_lt (by rw [hf]; rintro ⟨⟩) (by rw [hf]; rintro _ _ ⟨⟩) (hlt u hu),
      fun _ => hlt u hu⟩
  | array hf hlt | reference hf hlt =>
    rw [parts, hf] at hu
    obtain rfl := List.mem_singleton.mp hu
    exact ⟨part_of_index_lt (by rw [hf]; rintro ⟨⟩) (by rw [hf]; rintro _ _ ⟨⟩) hlt, fun _ => hlt⟩
  | ownParameter hf | methodParameter hf =>
    rw [parts, hf] at hu
    cases hu

/-- A type that is not held looks like a plain class. -/
theorem of_not_holds (h : ¬ s.Holds t) : s.FormedAt t :=
  .definition (form_of_not_holds h) fun hk => by cases hk

/-- What holds of a type in one store holds of it in another one, if it looks the same there and so
do the types it is made of. -/
theorem transfer (h : s.FormedAt t) (ht : s'.form t = s.form t)
    (hunnamed : (s.info t).Unnamed → (s'.info t).Unnamed)
    (hforms : ∀ {u f}, s.form u = f → f ≠ .named .classType none [] → s'.form u = f) :
    s'.FormedAt t := by
  cases h with
  | definition hf hown =>
    exact .definition (ht.trans hf) fun hk => hforms (hown hk) Form.noConfusion
  | constructed hf hlt hd hlength hnil hne =>
    refine .constructed (ht.trans hf) hlt (hforms hd ?_) hlength hnil hne
    rintro ⟨⟩
    exact hnil rfl
  | array hf hlt hrank hrow => exact .array (ht.trans hf) hlt hrank (hunnamed hrow)
  | reference hf hlt hrow => exact .reference (ht.trans hf) hlt (hunnamed hrow)
  | ownParameter hf hd hk hrow =>
    refine .ownParameter (ht.trans hf) (hforms hd ?_) hk (hunnamed hrow)
    rintro ⟨⟩
    cases hk
  | methodParameter hf hrow => exact .methodParameter (ht.trans hf) (hunnamed hrow)

end FormedAt

/-- The forms of a store are well formed type by type. -/
theorem Formed.formedAt {s : Store} (h : s.Formed) (t : TypeId) : s.FormedAt t := by
  cases hf : s.form t with
  | named shape d arguments =>
    cases d with
    | none => exact .definition hf (h.own_parameter hf)
    | some d =>
      obtain ⟨own, hd, hlength, hnil, hne⟩ := h.constructed hf
      refine .constructed hf (fun a ha => ?_) hd hlength hnil hne
      exact h.part_lt (by rw [hf]; exact rfl) (argument_mem_parts hf ha)
  | array e rank =>
    exact .array hf (h.part_lt (by rw [hf]; exact trivial) (element_mem_parts hf)) (h.rank_pos hf)
      (h.unnamed (by rw [hf]; exact fun _ _ _ => Form.noConfusion))
  | reference e =>
    exact .reference hf (h.part_lt (by rw [hf]; exact trivial) (target_mem_parts hf))
      (h.unnamed (by rw [hf]; exact fun _ _ _ => Form.noConfusion))
  | parameter o k =>
    have hunnamed := h.unnamed (t := t) (by rw [hf]; exact fun _ _ _ => Form.noConfusion)
    cases o with
    | type d =>
      obtain ⟨shape, own, hd, hk⟩ := h.parameter_own hf
      exact .ownParameter hf hd hk hunnamed
    | method m => exact .methodParameter hf hunnamed

/-- **The forms of a store are well formed** when those of its types are and types are made once. -/
theorem Formed.of_formedAt {s : Store} (hat : ∀ t, s.FormedAt t)
    (honce : ∀ {t u}, s.form t = s.form u → (s.form t).IsMade → t = u) : s.Formed where
  holds_part := fun hu => ((hat _).part hu).1.1
  height_part := fun hu => ((hat _).part hu).1.2
  part_lt := fun hmade hu => ((hat _).part hu).2 hmade
  own_parameter := by
    intro t shape own hf
    cases hat t with
    | definition hf' hown =>
      cases hf.symm.trans hf'
      exact hown
    | constructed hf' | array hf' | reference hf' | ownParameter hf' | methodParameter hf' =>
      cases hf.symm.trans hf'
  parameter_own := by
    intro a t k hf
    cases hat a with
    | ownParameter hf' hd hk =>
      cases hf.symm.trans hf'
      exact ⟨_, _, hd, hk⟩
    | definition hf' | constructed hf' | array hf' | reference hf' | methodParameter hf' =>
      cases hf.symm.trans hf'
  constructed := by
    intro t shape d arguments hf
    cases hat t with
    | constructed hf' _ hd hlength hnil hne =>
      cases hf.symm.trans hf'
      exact ⟨_, hd, hlength, hnil, hne⟩
    | definition hf' | array hf' | reference hf' | ownParameter hf' | methodParameter hf' =>
      cases hf.symm.trans hf'
  rank_pos := by
    intro t e rank hf
    cases hat t with
    | array hf' _ hrank =>
      cases hf.symm.trans hf'
      exact hrank
    | definition hf' | constructed hf' | reference hf' | ownParameter hf' | methodParameter hf' =>
      cases hf.symm.trans hf'
  made_once := honce
  unnamed := by
    intro t hf
    cases hat t with
    | definition hf' | constructed hf' => exact absurd hf' (hf _ _ _)
    | array _ _ _ hrow | reference _ _ hrow | ownParameter _ _ _ hrow | methodParameter _ hrow =>
      exact hrow

/-- **Forms stay well formed when a store grows**, if those of the new types are and no new type
is made that was made before. -/
theorem Formed.of_extends {s s' : Store} (h : s.Formed) (hext : s.Extends s')
    (hat : ∀ t, s'.Holds t → ¬ s.Holds t → s'.FormedAt t)
    (honce : ∀ {t u}, ¬ s.Holds t → s'.form t = s'.form u → (s'.form t).IsMade → t = u) :
    s'.Formed := by
  refine .of_formedAt (fun t => ?_) fun {t u} hf hmade => ?_
  · by_cases ht : s.Holds t
    · refine (h.formedAt t).transfer (hext.form_eq ht) (fun hrow => ?_) hext.form_eq_of_ne
      rwa [hext.info_eq ht]
    · by_cases ht' : s'.Holds t
      · exact hat t ht' ht
      · exact .of_not_holds ht'
  · by_cases ht : s.Holds t
    · by_cases hu : s.Holds u
      · rw [hext.form_eq ht] at hf hmade
        rw [hext.form_eq hu] at hf
        exact h.made_once hf hmade
      · exact (honce hu hf.symm (hf ▸ hmade)).symm
    · exact honce ht hf hmade

end Store

end CallSite
