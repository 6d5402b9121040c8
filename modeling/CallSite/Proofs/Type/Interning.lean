import CallSite.Proofs.Type.Reachable
import CallSite.Proofs.Type.Tables

/-!
# Types are made once

The store is asked before a type is made, and what it knows already is not made again. So a type is
determined by its parts: whoever compares two types compares their places in the store and nothing
else. `Store.Interned` collects what this rests on, and `interned_of_reachable` says that every run
of operations keeps it.

Beside the rows there are two tables that types occur in, the names and the method parameters that
were made again (`Store.TablesHeld`). The second one keeps each request as it was made, and with it
the types of a substitution that may never have been looked up; so a run has to name held types
there as well (`Operation.KeyHeld`).
-/

namespace CallSite

/-! ### The types that occur in a row or a table -/

namespace TypeInfo

/-- The type that declares a parameter, if the row is the row of one. -/
def ownerType? (info : TypeInfo) : Option TypeId :=
  match info.shape with
  | .parameter { owner := .type definition, .. } => some definition
  | _ => none

/-- **Every type that occurs in a row.** -/
def ids (info : TypeInfo) : List TypeId :=
  info.above ++ info.constraints ++ info.arguments ++
    (info.definition.toList ++ info.element?.toList ++ info.ownerType?.toList)

theorem ownerType?_eq_some_iff {info : TypeInfo} {d : TypeId} :
    info.ownerType? = some d ↔ ∃ k, info.form = .parameter (.type d) k := by
  unfold ownerType? form
  rcases info.shape with _ | _ | _ | _ | _ | ⟨owner, position, flags, constraints⟩
  iterate 5 simp
  cases owner <;> simp

theorem element?_eq_some_iff {info : TypeInfo} {e : TypeId} :
    info.element? = some e ↔ (∃ rank, info.form = .array e rank) ∨ info.form = .reference e := by
  unfold element? form
  cases info.shape <;> simp

end TypeInfo

/-- The types that a request for method parameters names. -/
def RebindKey.ids (key : RebindKey) : List TypeId :=
  key.typeOwner.toList ++ key.typeArguments

namespace Store

/-- **The types in the tables are held.** -/
structure TablesHeld (s : Store) : Prop where
  /-- Names stand for held types. -/
  holds_name : ∀ {entry}, entry ∈ s.names → s.Holds entry.2
  /-- Requests for method parameters name held types. -/
  holds_key : ∀ {entry}, entry ∈ s.rebound → ∀ u ∈ entry.1.ids, s.Holds u
  /-- They are answered by held types. -/
  holds_answer : ∀ {entry}, entry ∈ s.rebound → ∀ u ∈ entry.2.2, s.Holds u

/-- Tables stay while rows are added. -/
theorem TablesHeld.of_same {s s' : Store} (h : s.TablesHeld) (hsame : s.SameTables s')
    (hle : s.size ≤ s'.size) : s'.TablesHeld := by
  have hholds : ∀ {u}, s.Holds u → s'.Holds u := fun hu => Nat.lt_of_lt_of_le hu hle
  refine ⟨fun hentry => ?_, fun hentry u hu => ?_, fun hentry u hu => ?_⟩
  · rw [hsame.names_eq] at hentry
    exact hholds (h.holds_name hentry)
  · rw [hsame.rebound_eq] at hentry
    exact hholds (h.holds_key hentry u hu)
  · rw [hsame.rebound_eq] at hentry
    exact hholds (h.holds_answer hentry u hu)

/-- A name is given to a held type. -/
theorem TablesHeld.register {s : Store} (h : s.TablesHeld) {t : TypeId} (ht : s.Holds t)
    (name : String) : (s.register name t).TablesHeld := by
  refine ⟨fun hentry => ?_, h.holds_key, h.holds_answer⟩
  rcases List.mem_cons.mp hentry with rfl | hentry
  · exact ht
  · exact h.holds_name hentry

theorem TablesHeld.define {s : Store} (h : s.TablesHeld) (name : String) (kind : DefinitionKind)
    (names : List String) : (s.define name kind names).2.TablesHeld := by
  have hsame : s.SameTables ((addParameters (.type s.next) 0 names
      (s.add (definitionInfo name kind)).2).2.edit s.next fun info =>
        { info with arguments := s.ownParameters name kind names }) :=
    trans_of SameTables (⟨rfl, rfl, rfl⟩ : s.SameTables (s.add _).2)
      (trans_of _ (.addParameters (.type s.next) 0 names _) (.edit s.next _ _))
  have hsize := size_define s name kind names
  refine (h.of_same hsame ?_).register (?_ : Holds _ s.next) _
  · change s.size ≤ (s.define name kind names).2.size
    omega
  · change s.size < (s.define name kind names).2.size
    omega

end Store

/-! ### A run that keeps the tables -/

namespace Operation

/-- **The request for method parameters names held types.** Everything else that an operation names
is held already, by `Operation.Valid`. -/
def KeyHeld (s : Store) : Operation → Prop
  | .rebind method _ σ =>
    ∀ u ∈ (⟨method, σ.typeOwner, σ.typeArguments⟩ : RebindKey).ids, s.Holds u
  | _ => True

/-- All but the operations that name a type or make method parameters again leave the tables
alone. -/
theorem tablesHeld_of_along {op : Operation} {s : Store} (h : s.TablesHeld) (hs : s.WellFormed)
    (hvalid : op.Valid s) (hop : Along Store.SameTables op.run) : (op.after s).TablesHeld := by
  refine h.of_same (op.after_eq_storeAfter s ▸ hop s) ?_
  rcases after_cases hs hvalid with hgrown | ⟨t, change, hafter, -⟩
  · exact hgrown.size_le
  · have hsize : (op.after s).size = s.size := by rw [hafter, Store.size_edit]
    exact Nat.le_of_eq hsize.symm

variable {s : Store}

theorem tablesHeld_rebind (h : s.TablesHeld) (hs : s.WellFormed) {method : MethodToken}
    {parameters : List TypeId} {σ : Substitution} (hvalid : (rebind method parameters σ).Valid s)
    (hkey : (rebind method parameters σ).KeyHeld s) :
    ((rebind method parameters σ).after s).TablesHeld := by
  have hgrown : s.Grown ((rebind method parameters σ).after s) :=
    grown_after_of_bind hs (builds_rebind hs parameters method hvalid.2.2).ensures rfl
  obtain ⟨hnames, -, hrebound⟩ := tables_rebind method parameters σ s
  rw [← after_rebind] at hnames hrebound
  refine ⟨fun hentry => ?_, fun {entry} hentry u hu => ?_, hgrown.wellFormed.holds_rebound⟩
  · rw [hnames] at hentry
    exact hgrown.holds (h.holds_name hentry)
  · -- A new entry of the table is the request itself.
    rcases hrebound with hrebound | ⟨-, -, hrebound⟩ <;> rw [hrebound] at hentry
    · exact hgrown.holds (h.holds_key hentry u hu)
    · rcases List.mem_cons.mp hentry with rfl | hentry
      · exact hgrown.holds (hkey u hu)
      · exact hgrown.holds (h.holds_key hentry u hu)

/-- **Every operation keeps the types in the tables held.** -/
theorem tablesHeld_after {op : Operation} (h : s.TablesHeld) (hs : s.WellFormed)
    (hvalid : op.Valid s) (hkey : op.KeyHeld s) : (op.after s).TablesHeld := by
  have hdiscard : ∀ {α : Type} {x : TypeM α}, Along Store.SameTables x →
      Along Store.SameTables (do let _ ← x) := fun hx => hx.bind fun _ => .pure ()
  cases op with
  | define name kind parameters => exact h.define name kind parameters
  | register name t => exact h.register hvalid name
  | setBase t base => exact tablesHeld_of_along h hs hvalid (.edit t _)
  | addInterface t interface => exact tablesHeld_of_along h hs hvalid (.edit t _)
  | setSealed t value => exact tablesHeld_of_along h hs hvalid (.edit t _)
  | setDefaultConstructor t value => exact tablesHeld_of_along h hs hvalid (.edit t _)
  | constrain t flags constraints =>
    refine tablesHeld_of_along h hs hvalid (.get_bind fun s' => ?_)
    unfold Store.constrain
    by_cases hparam : (s'.info t).isParameter
    · rw [if_pos hparam]
      exact ⟨rfl, rfl, rfl⟩
    · rw [if_neg hparam]
      exact refl_of _ s'
  | newMethod => exact ⟨h.holds_name, h.holds_key, h.holds_answer⟩
  | methodParameters method names =>
    exact tablesHeld_of_along h hs hvalid (.addParameters (.method method) 0 names)
  | rebind method parameters σ => exact tablesHeld_rebind h hs hvalid hkey
  | construct definition arguments =>
    exact tablesHeld_of_along h hs hvalid (hdiscard (sameTables_construct definition arguments))
  | arrayOf element rank =>
    exact tablesHeld_of_along h hs hvalid (hdiscard (sameTables_arrayOf element rank))
  | byRef element =>
    exact tablesHeld_of_along h hs hvalid (hdiscard (sameTables_byRef element))
  | nullableOf t =>
    exact tablesHeld_of_along h hs hvalid (hdiscard (sameTables_construct Core.nullable [t]))
  | substitute σ t =>
    exact tablesHeld_of_along h hs hvalid (hdiscard (sameTables_substitute σ t))

end Operation

namespace Store

theorem tablesHeld_initial : initial.TablesHeld := by
  have hnames : ∀ entry ∈ initial.names, entry.2.index < 27 := by decide +kernel
  have hrebound : initial.rebound = [] := by decide +kernel
  refine ⟨fun {entry} hentry => ?_, fun hentry => ?_, fun hentry => ?_⟩
  · rw [Holds, size_initial]
    exact hnames entry hentry
  · rw [hrebound] at hentry
    cases hentry
  · rw [hrebound] at hentry
    cases hentry

theorem Reachable.tablesHeld {s : Store} (h : s.Reachable fun s op => op.KeyHeld s) :
    s.TablesHeld := by
  induction h with
  | initial => exact tablesHeld_initial
  | step hreach hvalid hkey ih => exact Operation.tablesHeld_after ih hreach.wellFormed hvalid hkey

/-! ### What rows and forms say -/

section Rows

variable {s : Store} {t u d e : TypeId}

/-- The element of an array or of a reference is a part of it. -/
theorem mem_parts_of_element? (h : (s.info t).element? = some e) : e ∈ s.parts t :=
  (TypeInfo.element?_eq_some_iff.mp h).elim (fun ⟨_, hf⟩ => element_mem_parts hf) target_mem_parts

/-- Every type that occurs in a row is held. -/
theorem WellFormed.holds_id (hs : s.WellFormed) (h : u ∈ (s.info t).ids) : s.Holds u := by
  simp only [TypeInfo.ids, List.mem_append, Option.mem_toList, or_assoc] at h
  rcases h with h | h | h | h | h | h
  · exact hs.holds_above h
  · exact hs.holds_constraint h
  · exact hs.holds_part (hs.mem_parts_of_mem_arguments h)
  · obtain ⟨shape, hf⟩ := hs.form_of_definition h
    obtain ⟨own, hown, -, hne, -⟩ := hs.constructed hf
    exact holds_of_form_ne (by rw [hown]; simp [hne])
  · exact hs.holds_part (mem_parts_of_element? h)
  · obtain ⟨k, hf⟩ := TypeInfo.ownerType?_eq_some_iff.mp h
    obtain ⟨shape, own, hown, hk⟩ := hs.parameter_own hf
    exact holds_of_form_ne fun hcon => by
      rw [hcon] at hown
      cases hown
      cases hk

end Rows

/-! ### Interned stores -/

/-- **Types are made once, and from what was there before.** -/
structure Interned (s : Store) : Prop where
  /-- The types in a row are held. -/
  holds_row : ∀ {t u}, u ∈ (s.info t).ids → s.Holds u
  /-- The types in the tables are held. -/
  tablesHeld : s.TablesHeld
  /-- A constructed type is determined by its definition and arguments. -/
  constructed_unique : ∀ {t u d}, (s.info t).definition = some d → (s.info u).definition = some d →
    (s.info t).arguments = (s.info u).arguments → t = u
  /-- An array type is determined by its element and rank. -/
  array_unique : ∀ {t u e rank}, (s.info t).shape = .arrayType e rank →
    (s.info u).shape = .arrayType e rank → t = u
  /-- A reference is determined by its element. -/
  byRef_unique : ∀ {t u e}, (s.info t).shape = .byRefType e → (s.info u).shape = .byRefType e →
    t = u
  /-- A constructed type has the arity of its definition, and not its own parameters as
  arguments. -/
  arity : ∀ {t d}, (s.info t).definition = some d → (s.info d).isDefinition ∧
    (s.info t).arguments.length = (s.info d).arguments.length ∧
    (s.info t).arguments ≠ (s.info d).arguments
  /-- The arguments of a constructed type were made before it. -/
  argument_lt : ∀ {t d a}, (s.info t).definition = some d → a ∈ (s.info t).arguments →
    a.index < t.index
  /-- The element of an array or a reference was made before it. -/
  element_lt : ∀ {t e}, (s.info t).element? = some e → e.index < t.index
  /-- The parameter at a place of a definition has that owner and that position. -/
  own_place : ∀ {d a} {k : Nat}, (s.info d).isDefinition → (s.info d).arguments[k]? = some a →
    ∃ p, (s.info a).shape = .parameter p ∧ p.owner = .type d ∧ p.position = k

theorem WellFormed.interned {s : Store} (hs : s.WellFormed) (htables : s.TablesHeld) :
    s.Interned where
  holds_row := hs.holds_id
  tablesHeld := htables
  constructed_unique {t u d} ht hu harguments := by
    obtain ⟨shape, hf⟩ := hs.form_of_definition ht
    obtain ⟨shape', hf'⟩ := hs.form_of_definition hu
    rw [harguments] at hf
    exact hs.eq_of_head_eq hf hf' (by rw [head, head, ht, hu]; rfl)
  array_unique {t u e rank} ht hu := by
    have hf := TypeInfo.form_eq_array_iff.mpr ht
    exact hs.made_once (hf.trans (TypeInfo.form_eq_array_iff.mpr hu).symm)
      (by rw [show s.form t = _ from hf]; trivial)
  byRef_unique {t u e} ht hu := by
    have hf := TypeInfo.form_eq_reference_iff.mpr ht
    exact hs.made_once (hf.trans (TypeInfo.form_eq_reference_iff.mpr hu).symm)
      (by rw [show s.form t = _ from hf]; trivial)
  arity {t d} ht := by
    obtain ⟨shape, hf⟩ := hs.form_of_definition ht
    obtain ⟨own, hown, hlen, hnil, hne⟩ := hs.constructed hf
    obtain ⟨-, hnone, rfl, -⟩ := TypeInfo.form_eq_named_iff.mp hown
    exact ⟨TypeInfo.isDefinition_iff.mpr ⟨hnone, hnil⟩, hlen.symm, hne.symm⟩
  argument_lt {t d a} ht ha := by
    obtain ⟨shape, hf⟩ := hs.form_of_definition ht
    exact hs.part_lt (by rw [hf]; rfl) (hs.mem_parts_of_mem_arguments ha)
  element_lt {t e} ht := by
    refine hs.part_lt ?_ (mem_parts_of_element? ht)
    rcases TypeInfo.element?_eq_some_iff.mp ht with ⟨rank, hf⟩ | hf <;>
      · rw [form, hf]
        trivial
  own_place {d a k} hd ha := by
    obtain ⟨shape, hf⟩ := hs.form_of_isDefinition hd
    exact TypeInfo.form_eq_parameter_iff.mp (hs.own_parameter hf ha)

/-! ### Making a type again from its parts -/

section Rebuild

variable {s : Store} (hs : s.WellFormed) {t e : TypeId}

include hs

theorem arrayOf_of_held {rank : Nat} (ht : (s.info t).shape = .arrayType e rank) :
    arrayOf e rank s = .ok t s := by
  have hf : s.form t = .array e rank := TypeInfo.form_eq_array_iff.mpr ht
  obtain ⟨n, hn⟩ := s.exists_depthBound
  rw [arrayOf, get_bind_apply, hn]
  exact arrayOfWithin_of_held hs.toFormed (holds_of_form_ne (by rw [hf]; exact Form.noConfusion))
    hf n

theorem byRef_of_shape (ht : (s.info t).shape = .byRefType e) : byRef e s = .ok t s := by
  have hf : s.form t = .reference e := TypeInfo.form_eq_reference_iff.mpr ht
  exact byRef_of_held hs.toFormed (holds_of_form_ne (by rw [hf]; exact Form.noConfusion)) hf

end Rebuild

/-- **Every run of operations leads to a store in which types are made once**, and making a type
again from its parts returns that type and adds nothing. -/
theorem interned_of_reachable {s : Store} (hreach : s.Reachable fun s op => op.KeyHeld s) :
    s.Interned ∧
      (∀ t d, s.genericDefinition t = some d → construct d (s.info t).arguments s = .ok t s) ∧
      (∀ t e rank, (s.info t).shape = .arrayType e rank → arrayOf e rank s = .ok t s) ∧
      ∀ t e, (s.info t).shape = .byRefType e → byRef e s = .ok t s := by
  have hs := hreach.wellFormed
  exact ⟨hs.interned hreach.tablesHeld, fun _ _ => construct_of_held hs.toFormed,
    fun _ _ _ => arrayOf_of_held hs, fun _ _ => byRef_of_shape hs⟩

/-- A store with boxes of integers, the tables of these, and a method that was met on them. -/
def boxStore : Store :=
  (Operation.rebind ⟨0⟩ [] (.forType ⟨27⟩ [Core.int32])).after
    ((Operation.arrayOf ⟨29⟩ 2).after ((Operation.construct ⟨27⟩ [Core.int32]).after
      ((Operation.define "Box" .classKind ["T"]).after (Operation.newMethod.after initial))))

theorem reachable_boxStore : boxStore.Reachable fun s op => op.KeyHeld s := by
  let s₂ := (Operation.define "Box" .classKind ["T"]).after (Operation.newMethod.after initial)
  let s₃ := (Operation.construct ⟨27⟩ [Core.int32]).after s₂
  let s₄ := (Operation.arrayOf ⟨29⟩ 2).after s₃
  have h₂ : 27 < s₂.size := by decide +kernel
  have h₃ : 29 < s₃.size := by decide +kernel
  have h₄ : 27 < s₄.size ∧ 0 < s₄.nextMethod := by decide +kernel
  have hint : ∀ {s : Store}, 27 < s.size → ∀ a ∈ [Core.int32], s.Holds a := by
    intro s hs a ha
    obtain rfl := List.mem_singleton.mp ha
    exact Nat.lt_trans (by decide) hs
  refine .step (.step (.step (.step (.step .initial trivial trivial) trivial trivial)
    ⟨h₂, hint h₂⟩ trivial) h₃ trivial) ⟨h₄.2, ?_, .forType (hint h₄.1)⟩ ?_
  · rintro t ⟨⟩
  · intro u hu
    rcases List.mem_cons.mp hu with rfl | hu
    · exact h₄.1
    · exact hint h₄.1 u hu

/-- Boxes of integers and the tables of these are not made a second time. -/
theorem interned_of_reachable_boxes :
    construct ⟨27⟩ [Core.int32] boxStore = .ok ⟨29⟩ boxStore ∧
      arrayOf ⟨29⟩ 2 boxStore = .ok ⟨30⟩ boxStore := by
  obtain ⟨-, hconstruct, harray, -⟩ := interned_of_reachable reachable_boxStore
  have harguments : (boxStore.info ⟨29⟩).arguments = [Core.int32] := by decide +kernel
  have h := hconstruct ⟨29⟩ ⟨27⟩ (by decide +kernel)
  rw [harguments] at h
  exact ⟨h, harray ⟨30⟩ ⟨29⟩ 2 (by decide +kernel)⟩

end Store

end CallSite
