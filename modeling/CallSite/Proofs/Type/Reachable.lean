import CallSite.Proofs.Type.Rebind
import CallSite.Type.Initial

/-!
# Reachable stores

A store is **reachable** when it comes out of the store that a program begins with by operations on
types that are there. Every reachable store is well formed (`Store.Reachable.wellFormed`): each
operation keeps what a type is made of, appends types that are not there yet, and lets rows point to
held types only.

A run may be held to a discipline, which is a condition on each of its operations. The one that
matters here is `Operation.Scoped`: what is set as a base or an interface of a type mentions only
parameters that the type mentions itself, which are the own parameters of a definition and none
otherwise. A run that keeps it leads to a scoped store (`Store.Reachable.scoped_store`), because
what is constructed on the way inherits it.
-/

namespace CallSite

/-! ### Operations -/

/-- **What a program does with its types.** -/
inductive Operation
  /-- Define a named type with own parameters. -/
  | define (name : String) (kind : DefinitionKind) (parameters : List String)
  /-- Let a name stand for a type. -/
  | register (name : String) (t : TypeId)
  /-- Set the base of a type. -/
  | setBase (t base : TypeId)
  /-- Declare an interface on a type. -/
  | addInterface (t interface : TypeId)
  /-- Say whether anything may derive from a type. -/
  | setSealed (t : TypeId) (value : Bool)
  /-- Say whether a type can be made without arguments. -/
  | setDefaultConstructor (t : TypeId) (value : Bool)
  /-- Give constraints to a generic parameter. -/
  | constrain (t : TypeId) (flags : Flags) (constraints : List TypeId)
  /-- Meet another generic method. -/
  | newMethod
  /-- Make the generic parameters of a method. -/
  | methodParameters (method : MethodToken) (names : List String)
  /-- Make the generic parameters of a method again. -/
  | rebind (method : MethodToken) (parameters : List TypeId) (σ : Substitution)
  /-- Construct a type. -/
  | construct (definition : TypeId) (arguments : List TypeId)
  /-- Make the arrays of an element. -/
  | arrayOf (element : TypeId) (rank : Nat)
  /-- Make the reference to an element. -/
  | byRef (element : TypeId)
  /-- Make a nullable type. -/
  | nullableOf (t : TypeId)
  /-- Replace parameters in a type. -/
  | substitute (σ : Substitution) (t : TypeId)

namespace Operation

/-- Carry an operation out. -/
def run : Operation → TypeM Unit
  | .define name kind parameters => modify fun s => (s.define name kind parameters).2
  | .register name t => modify (·.register name t)
  | .setBase t base => modify (·.setBase t base)
  | .addInterface t interface => modify (·.addInterface t interface)
  | .setSealed t value => modify (·.setSealed t value)
  | .setDefaultConstructor t value => modify (·.setDefaultConstructor t value)
  | .constrain t flags constraints => do
    match (← get).constrain t flags constraints with
    | .ok s => set s
    | .error e => throw e
  | .newMethod => modify fun s => s.newMethod.2
  | .methodParameters method names => modify fun s => (s.defineMethodParameters method names).2
  | .rebind method parameters σ => do
    let _ ← rebindMethodParameters method parameters σ
  | .construct definition arguments => do
    let _ ← CallSite.construct definition arguments
  | .arrayOf element rank => do
    let _ ← CallSite.arrayOf element rank
  | .byRef element => do
    let _ ← CallSite.byRef element
  | .nullableOf t => do
    let _ ← CallSite.nullableOf t
  | .substitute σ t => do
    let _ ← CallSite.substitute σ t

/-- The store after an operation. One that fails leaves behind what it has added. -/
def after (op : Operation) (s : Store) : Store :=
  match op.run s with
  | .ok _ s' => s'
  | .error _ s' => s'

theorem after_eq_storeAfter (op : Operation) (s : Store) : op.after s = storeAfter op.run s := by
  unfold after storeAfter
  cases op.run s <;> rfl

/-- To make method parameters again as an operation is to forget the answer. -/
theorem after_rebind (m : MethodToken) (ps : List TypeId) (σ : Substitution) (s : Store) :
    (rebind m ps σ).after s = storeAfter (rebindMethodParameters m ps σ) s := by
  rw [after_eq_storeAfter, run]
  cases hrun : rebindMethodParameters m ps σ s with
  | ok found s' =>
    rw [storeAfter, bind_apply_of_ok hrun, storeAfter_of_ok hrun]
    rfl
  | error e s' => rw [storeAfter_of_error hrun, storeAfter_of_error (bind_apply_of_error hrun _)]

/-- Constraints are given to a parameter, and nothing is done to any other type. -/
theorem after_constrain (t : TypeId) (flags : Flags) (constraints : List TypeId) (s : Store) :
    (constrain t flags constraints).after s = s.setConstraints t flags constraints ∨
      (constrain t flags constraints).after s = s := by
  rw [after_eq_storeAfter, storeAfter, run, get_bind_apply, Store.constrain]
  by_cases hparam : (s.info t).isParameter
  · rw [if_pos hparam]
    exact .inl rfl
  · rw [if_neg hparam]
    exact .inr rfl

/-- **The types that an operation names are there**, and so is the method. -/
def Valid (s : Store) : Operation → Prop
  | .define _ _ _ => True
  | .register _ t => s.Holds t
  | .setBase t base => s.Holds t ∧ s.Holds base
  | .addInterface t interface => s.Holds t ∧ s.Holds interface
  | .setSealed t _ => s.Holds t
  | .setDefaultConstructor t _ => s.Holds t
  | .constrain t _ constraints => s.Holds t ∧ ∀ c ∈ constraints, s.Holds c
  | .newMethod => True
  | .methodParameters method _ => method.number < s.nextMethod
  | .rebind method parameters σ =>
    method.number < s.nextMethod ∧ (∀ t ∈ parameters, s.Holds t) ∧ σ.HeldBy s
  | .construct definition arguments => s.Holds definition ∧ ∀ a ∈ arguments, s.Holds a
  | .arrayOf element _ => s.Holds element
  | .byRef element => s.Holds element
  | .nullableOf t => s.Holds t
  | .substitute σ t => σ.HeldBy s ∧ s.Holds t

/-- **Hierarchies are scoped**: what is set above a type mentions only parameters that the type
mentions, its own parameters if it is a definition. -/
def Scoped (s : Store) : Operation → Prop
  | .setBase t base => ∀ q, s.Mentions base q → s.Mentions t q
  | .addInterface t interface => ∀ q, s.Mentions interface q → s.Mentions t q
  | _ => True

/-- What an operation does that lets the store grow. -/
theorem grown_after {op : Operation} {s : Store} {Q : Unit → Store → Prop}
    (h : Ensures op.run s Q) : s.Grown (op.after s) := by
  unfold Ensures EnsuresFrom at h
  unfold after
  cases hrun : op.run s with
  | ok a s' =>
    rw [hrun] at h
    exact h.1
  | error e s' =>
    rw [hrun] at h
    exact h

theorem grown_after_of_bind {α : Type} {op : Operation} {x : TypeM α} {s : Store}
    (hs : s.WellFormed) {Q : α → Store → Prop} (hx : Ensures x s Q)
    (hrun : op.run = do let _ ← x) : s.Grown (op.after s) := by
  refine grown_after (Q := fun _ _ => True) ?_
  rw [hrun]
  exact hx.bind hs fun _ _ hgrown _ => .pure hgrown.wellFormed trivial

variable {op : Operation} {s : Store}

/-- **An operation lets the store grow, or changes one row**: the row keeps its form, and what it
points to was there before or is what the operation puts there. -/
theorem after_cases (hs : s.WellFormed) (hvalid : op.Valid s) :
    s.Grown (op.after s) ∨ ∃ t change, op.after s = s.edit t change ∧
      s.SameForms (s.edit t change) ∧
      (∀ u ∈ (change (s.info t)).above, u ∈ (s.info t).above ∨
        (s.Holds u ∧ (op.Scoped s → ∀ q, s.Mentions u q → s.Mentions t q))) ∧
      ∀ u ∈ (change (s.info t)).constraints, s.Holds u := by
  have hcons : ∀ t, ∀ u ∈ (s.info t).constraints, s.Holds u := fun _ _ hu => hs.holds_constraint hu
  cases op with
  | define name kind parameters =>
    exact .inl ⟨Store.extends_define s name kind parameters, hs.define name kind parameters,
      fun hsc => hsc.define name kind parameters hs⟩
  | register name t => exact .inl (.of_types_eq hs rfl fun h => hs.holds_rebound h)
  | newMethod => exact .inl (.of_types_eq hs rfl fun h => hs.holds_rebound h)
  | methodParameters method names =>
    exact .inl ⟨Store.extends_addParameters _ _ _ _, hs.addParameters _ _ _,
      fun hsc => hsc.addParameters hs _ _ _⟩
  | rebind method parameters σ =>
    exact .inl (grown_after_of_bind hs (builds_rebind hs _ _ hvalid.2.2).ensures rfl)
  | construct definition arguments =>
    exact .inl (grown_after_of_bind hs (ensures_construct hs hvalid.2) rfl)
  | arrayOf element rank => exact .inl (grown_after_of_bind hs (ensures_arrayOf hs hvalid) rfl)
  | byRef element => exact .inl (grown_after_of_bind hs (ensures_byRef hs hvalid) rfl)
  | nullableOf t =>
    refine .inl (grown_after_of_bind hs (ensures_construct hs fun a ha => ?_) rfl)
    rw [List.mem_singleton.mp ha]
    exact hvalid
  | substitute σ t =>
    exact .inl (grown_after_of_bind hs (ensures_substitute hs hvalid.2 hvalid.1) rfl)
  | setSealed t value =>
    exact .inr ⟨t, _, rfl, Store.sameForms_edit fun _ => ⟨rfl, rfl, rfl⟩, fun _ hu => .inl hu,
      hcons t⟩
  | setDefaultConstructor t value =>
    exact .inr ⟨t, _, rfl, Store.sameForms_edit fun _ => ⟨rfl, rfl, rfl⟩, fun _ hu => .inl hu,
      hcons t⟩
  | setBase t base =>
    refine .inr ⟨t, _, rfl, Store.sameForms_edit fun _ => ⟨rfl, rfl, rfl⟩, fun u hu => ?_, hcons t⟩
    refine (TypeInfo.mem_above_of_base hu).imp_right ?_
    rintro rfl
    exact ⟨hvalid.2, id⟩
  | addInterface t interface =>
    refine .inr ⟨t, _, rfl, Store.sameForms_edit fun info => ?_, fun u hu => ?_, fun u hu => ?_⟩
    · split <;> exact ⟨rfl, rfl, rfl⟩
    · split at hu
      · exact .inl hu
      · refine (TypeInfo.mem_above_of_interface hu).imp_right ?_
        rintro rfl
        exact ⟨hvalid.2, id⟩
    · refine hcons t u ?_
      split at hu <;> exact hu
  | constrain t flags constraints =>
    rcases after_constrain t flags constraints s with hafter | hafter <;> rw [hafter]
    · refine .inr ⟨t, _, rfl, Store.sameForms_setConstraints s t flags constraints, fun u hu => ?_,
        fun u hu => ?_⟩
      · split at hu <;> exact .inl hu
      · split at hu
        · exact hvalid.2 u hu
        · exact hcons t u hu
    · exact .inl (.refl hs)

theorem wellFormed_after (hs : s.WellFormed) (hvalid : op.Valid s) : (op.after s).WellFormed := by
  rcases after_cases hs hvalid with h | ⟨t, change, h, hsame, habove, hcons⟩
  · exact h.wellFormed
  · rw [h]
    exact hs.edit hsame (fun u hu => (habove u hu).elim hs.holds_above And.left) hcons

theorem scoped_after (hs : s.WellFormed) (hsc : s.Scoped) (hvalid : op.Valid s)
    (hscoped : op.Scoped s) : (op.after s).Scoped := by
  rcases after_cases hs hvalid with h | ⟨t, change, h, hsame, habove, hcons⟩
  · exact h.keeps_scoped hsc
  · rw [h]
    exact hsc.edit hsame fun u hu => (habove u hu).elim (hsc t u) fun hu => hu.2 hscoped

end Operation

/-! ### The store that a program begins with -/

namespace Store

/-- The own parameters of a definition and its parameters know of each other, a constructed type
agrees with its definition, and a type that is not named has no arguments. -/
def formAgrees (s : Store) (t : TypeId) : Bool :=
  let info := s.info t
  match s.form t with
  | .named _ none own => own.zipIdx.all fun (a, k) => s.form a = .parameter (.type t) k
  | .named shape (some d) arguments =>
    match s.form d with
    | .named shape' none own =>
      shape = shape' && own.length = arguments.length && !own.isEmpty && own ≠ arguments
    | _ => false
  | .array _ rank => 1 ≤ rank && info.definition.isNone && info.arguments.isEmpty
  | .reference _ => info.definition.isNone && info.arguments.isEmpty
  | .parameter (.type d) k =>
    match s.form d with
    | .named _ none own => own[k]? = some t && info.definition.isNone && info.arguments.isEmpty
    | _ => false
  | .parameter (.method _) _ => info.definition.isNone && info.arguments.isEmpty

/-- What the check finds of a type, together with the order in which types are made. -/
theorem FormedAt.of_formAgrees {s : Store} {t : TypeId}
    (hlt : ∀ u ∈ s.parts t, (s.form t).IsMade → u.index < t.index) (h : s.formAgrees t) :
    s.FormedAt t := by
  rw [formAgrees] at h
  cases hf : s.form t with
  | named shape d arguments =>
    cases d with
    | none =>
      rw [hf] at h
      refine .definition hf fun {k a} hk => ?_
      have hmem : (a, k) ∈ arguments.zipIdx := List.mk_mem_zipIdx_iff_getElem?.mpr hk
      exact of_decide_eq_true (List.all_eq_true.mp h _ hmem)
    | some d =>
      rw [hf] at h
      dsimp only at h
      split at h
      case h_1 shape' own hd =>
        simp only [Bool.and_eq_true, decide_eq_true_eq, Bool.not_eq_true',
          List.isEmpty_eq_false_iff] at h
        obtain ⟨⟨⟨rfl, hlength⟩, hnil⟩, hne⟩ := h
        refine .constructed hf (fun a ha => ?_) hd hlength hnil hne
        exact hlt a (argument_mem_parts hf ha) (by rw [hf]; exact rfl)
      case h_2 => cases h
  | array e rank =>
    rw [hf] at h
    simp only [Bool.and_eq_true, decide_eq_true_eq, Option.isNone_iff_eq_none,
      List.isEmpty_iff] at h
    exact .array hf (hlt e (element_mem_parts hf) (by rw [hf]; exact trivial)) h.1.1
      ⟨h.1.2, h.2⟩
  | reference e =>
    rw [hf] at h
    simp only [Bool.and_eq_true, Option.isNone_iff_eq_none, List.isEmpty_iff] at h
    exact .reference hf (hlt e (target_mem_parts hf) (by rw [hf]; exact trivial)) h
  | parameter o k =>
    cases o with
    | type d =>
      rw [hf] at h
      dsimp only at h
      split at h
      case h_1 shape own hd =>
        simp only [Bool.and_eq_true, decide_eq_true_eq, Option.isNone_iff_eq_none,
          List.isEmpty_iff] at h
        exact .ownParameter hf hd h.1.1 ⟨h.1.2, h.2⟩
      case h_2 => cases h
    | method m =>
      rw [hf] at h
      simp only [Bool.and_eq_true, Option.isNone_iff_eq_none, List.isEmpty_iff] at h
      exact .methodParameter hf h

/-- The conditions on the forms of a store can be checked. -/
theorem Formed.of_check {s : Store}
    (hlt : ∀ i < s.size, ∀ u ∈ s.parts ⟨i⟩, (s.form ⟨i⟩).IsMade → u.index < i)
    (honce : ∀ i < s.size, ∀ j < s.size, s.form ⟨i⟩ = s.form ⟨j⟩ → (s.form ⟨i⟩).IsMade → i = j)
    (hagrees : ∀ i < s.size, s.formAgrees ⟨i⟩) : s.Formed := by
  have hheld : ∀ {t}, (s.form t).IsMade → s.Holds t := fun hmade =>
    holds_of_form_ne fun hcon => by
      rw [hcon] at hmade
      cases hmade
  refine .of_formedAt (fun t => ?_) fun {t u} hf hmade => ?_
  · by_cases ht : s.Holds t
    · exact .of_formAgrees (hlt t.index ht) (hagrees t.index ht)
    · exact .of_not_holds ht
  · have hindex := honce t.index (hheld hmade) u.index (hheld (hf ▸ hmade)) hf hmade
    cases t
    cases u
    exact congrArg TypeId.mk hindex

theorem size_initial : initial.size = 27 := by decide +kernel

/-- **The first store is well formed.** -/
theorem wellFormed_initial : initial.WellFormed := by
  have hpoints : ∀ i < 27, ∀ u ∈ (initial.info ⟨i⟩).above ++ (initial.info ⟨i⟩).constraints,
      u.index < 27 := by decide +kernel
  have hheld : ∀ {t u}, u ∈ (initial.info t).above ++ (initial.info t).constraints →
      initial.Holds u := by
    intro t u hu
    rw [Holds, size_initial]
    refine hpoints t.index ?_ u hu
    rw [← size_initial]
    refine not_not.mp fun hcon => ?_
    rw [info_of_not_holds hcon] at hu
    cases hu
  have hrebound : initial.rebound = [] := by decide +kernel
  refine ⟨.of_check ?_ ?_ ?_, fun hu => hheld (List.mem_append_left _ hu),
    fun hu => hheld (List.mem_append_right _ hu), ?_, by decide +kernel, by decide +kernel,
    by decide +kernel, by decide +kernel, by decide +kernel, by decide +kernel⟩
  · rw [size_initial]
    decide +kernel
  · rw [size_initial]
    decide +kernel
  · rw [size_initial]
    decide +kernel
  · intro entry hentry
    rw [hrebound] at hentry
    cases hentry

/-- What stands above a type of the first store is no parameter and mentions none. -/
theorem closed_above_initial {t u : TypeId} (hu : u ∈ (initial.info t).above) (q : TypeId) :
    ¬ initial.Mentions u q := by
  have hclosed : ∀ i < 27, ∀ u ∈ (initial.info ⟨i⟩).above, initial.isOpen u = false := by
    decide +kernel
  have ht : t.index < 27 := by
    rw [← size_initial]
    refine not_not.mp fun hcon => ?_
    rw [info_of_not_holds hcon] at hu
    cases hu
  exact wellFormed_initial.not_mentions_of_not_isOpen (wellFormed_initial.holds_above hu)
    (hclosed t.index ht u hu) q

theorem scoped_initial : initial.Scoped :=
  fun _ _ hu q hq => absurd hq (closed_above_initial hu q)

/-! ### Reachable stores -/

/-- **A store that a run of operations leads to**, each of them allowed where it is carried out. -/
inductive Reachable (allowed : Store → Operation → Prop) : Store → Prop
  /-- The store that a program begins with. -/
  | initial : Reachable allowed Store.initial
  /-- One more operation. -/
  | step {s : Store} {op : Operation} :
      Reachable allowed s → op.Valid s → allowed s op → Reachable allowed (op.after s)

namespace Reachable

variable {allowed : Store → Operation → Prop} {s : Store}

/-- **Every reachable store is well formed.** -/
theorem wellFormed (h : s.Reachable allowed) : s.WellFormed := by
  induction h with
  | initial => exact wellFormed_initial
  | step _ hvalid _ ih => exact Operation.wellFormed_after ih hvalid

/-- **A run that keeps hierarchies scoped leads to a scoped store.** -/
theorem scoped_store (h : s.Reachable fun s op => op.Scoped s) : s.Scoped := by
  induction h with
  | initial => exact scoped_initial
  | step hreach hvalid hscoped ih =>
    exact Operation.scoped_after hreach.wellFormed ih hvalid hscoped

end Reachable

end Store

end CallSite
