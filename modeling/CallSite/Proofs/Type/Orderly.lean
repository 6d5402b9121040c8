import CallSite.Proofs.Type.Reachable

/-!
# Orderly runs

A run is **orderly** when every hierarchy is finished before it is used: what is set above a type
mentions only its own parameters and is not a bare parameter, the type is not constructed itself and
nothing was constructed from it yet, and no operation runs into a hierarchy that expands without end
(`Operation.Orderly`).

In the store that such a run leads to (`Store.Reachable.orderly_store`), every constructed type
still derives from its definition: what stands above the one is what stands above the other with the
parameters replaced. Where arrays and references are left alone as well, every type that is made
from types is complete (`Store.Reachable.complete_store`).
-/

namespace CallSite

/-- **What may be set above a type** while nothing is constructed from it. -/
structure Store.MayStandAbove (s : Store) (t u : TypeId) : Prop where
  /-- It mentions only parameters that the type mentions. -/
  in_scope : ∀ q, s.Mentions u q → s.Mentions t q
  /-- It is not a bare parameter. -/
  not_parameter : ∀ o k, s.form u ≠ .parameter o k
  /-- The type is not a constructed one. -/
  not_constructed : (s.info t).definition = none
  /-- Nothing was constructed from the type. -/
  unused : ∀ x, (s.info x).definition ≠ some t

/-! ### Orderly operations -/

namespace Operation

/-- The type whose hierarchy an operation sets, and what is set above it. -/
def placed? : Operation → Option (TypeId × TypeId)
  | .setBase t base => some (t, base)
  | .addInterface t interface => some (t, interface)
  | _ => none

/-- **An orderly operation.** -/
structure Orderly (s : Store) (op : Operation) : Prop where
  /-- It does not run into a hierarchy that expands without end. -/
  finite : ∀ e s', op.run s = .error e s' → ¬ e.IsEndless
  /-- It sets a hierarchy only before it is used. -/
  placed : ∀ t u, op.placed? = some (t, u) → s.MayStandAbove t u

/-- The operation leaves what is above constructed types, arrays and references alone. -/
def LeavesMade (s : Store) (op : Operation) : Prop :=
  ∀ t u, op.placed? = some (t, u) → ¬ (s.form t).IsMade

/-! ### What an operation does to hierarchies -/

variable {op : Operation} {s : Store}

theorem built_after_of_bind {α : Type} {x : TypeM α} (hs : s.WellFormed) {Q : α → Store → Prop}
    (hx : Builds x s Q) (hrun : op.run = do let _ ← x)
    (hfinite : ∀ e s', op.run s = .error e s' → ¬ e.IsEndless) :
    s.Grown (op.after s) ∧ s.CompletedBy (op.after s) := by
  have hbuilds : Builds op.run s fun _ _ => True := by
    rw [hrun]
    exact hx.bind hs fun _ _ hgrown _ => .pure hgrown.wellFormed trivial
  unfold after
  cases h : op.run s with
  | ok a s' => exact ⟨(hbuilds.of_ok h).1, (hbuilds.of_ok h).2.1⟩
  | error e s' => exact absurd (hbuilds.of_error h).2 (hfinite e s' h)

theorem after_of_error {α : Type} {x : TypeM α} {e : TypeError} {s' : Store}
    (hx : x s = .error e s') (hrun : op.run = do let _ ← x) : op.after s = s' := by
  rw [after, hrun, bind_apply_of_error hx]

/-- **An operation that sets no hierarchy** completes what it adds, or changes a row and keeps what
stands above it. -/
theorem after_cases_of_not_placed (hs : s.WellFormed) (hvalid : op.Valid s)
    (hfinite : ∀ e s', op.run s = .error e s' → ¬ e.IsEndless) (hplaced : op.placed? = none) :
    (s.Grown (op.after s) ∧ s.CompletedBy (op.after s)) ∨ (s.SameForms (op.after s) ∧
      ∀ t, ((op.after s).info t).base = (s.info t).base ∧
        ((op.after s).info t).interfaces = (s.info t).interfaces) := by
  cases op with
  | setBase t base => cases hplaced
  | addInterface t interface => cases hplaced
  | define name kind parameters =>
    exact .inl ⟨⟨Store.extends_define s name kind parameters, hs.define name kind parameters,
      fun hsc => hsc.define name kind parameters hs⟩, s.completedBy_define name kind parameters⟩
  | register name t => exact .inr ⟨Store.sameForms_of_types_eq rfl, fun _ => ⟨rfl, rfl⟩⟩
  | newMethod => exact .inr ⟨Store.sameForms_of_types_eq rfl, fun _ => ⟨rfl, rfl⟩⟩
  | methodParameters method names =>
    exact .inl ⟨⟨Store.extends_addParameters _ _ _ _, hs.addParameters _ _ _,
      fun hsc => hsc.addParameters hs _ _ _⟩, Store.completedBy_addParameters _ _ _ s⟩
  | setSealed t value =>
    exact .inr ⟨Store.sameForms_edit fun _ => ⟨rfl, rfl, rfl⟩,
      Store.keepsAbove_edit fun _ => ⟨rfl, rfl⟩⟩
  | setDefaultConstructor t value =>
    exact .inr ⟨Store.sameForms_edit fun _ => ⟨rfl, rfl, rfl⟩,
      Store.keepsAbove_edit fun _ => ⟨rfl, rfl⟩⟩
  | constrain t flags constraints =>
    rcases after_constrain t flags constraints s with hafter | hafter <;> rw [hafter]
    · exact .inr ⟨Store.sameForms_setConstraints s t flags constraints,
        Store.keepsAbove_edit fun info => by split <;> exact ⟨rfl, rfl⟩⟩
    · exact .inl ⟨.refl hs, .refl s⟩
  | rebind method parameters σ =>
    exact .inl (built_after_of_bind hs (builds_rebind hs _ _ hvalid.2.2) rfl hfinite)
  | construct definition arguments =>
    by_cases hdef : (s.info definition).isDefinition
    swap
    · have hafter : (Operation.construct definition arguments).after s = s :=
        after_of_error (construct_of_not_isDefinition arguments hdef) rfl
      rw [hafter]
      exact .inl ⟨.refl hs, .refl s⟩
    by_cases hlen : (s.info definition).arguments.length = arguments.length
    swap
    · have hafter : (Operation.construct definition arguments).after s = s :=
        after_of_error (construct_of_length_ne hdef hlen) rfl
      rw [hafter]
      exact .inl ⟨.refl hs, .refl s⟩
    exact .inl (built_after_of_bind hs (builds_construct hs hvalid.2 hdef hlen) rfl hfinite)
  | arrayOf element rank =>
    exact .inl (built_after_of_bind hs (builds_arrayOf hs hvalid) rfl hfinite)
  | byRef element => exact .inl (built_after_of_bind hs (builds_byRef hs hvalid) rfl hfinite)
  | nullableOf t =>
    obtain ⟨-, hnone, harguments, -⟩ := TypeInfo.form_eq_named_iff.mp hs.form_nullable
    refine .inl (built_after_of_bind hs (builds_construct hs (fun a ha => ?_) ?_ ?_) rfl hfinite)
    · rw [List.mem_singleton.mp ha]
      exact hvalid
    · exact TypeInfo.isDefinition_of_form hs.form_nullable (List.cons_ne_nil _ _)
    · rw [harguments]
      rfl
  | substitute σ t =>
    exact .inl (built_after_of_bind hs (builds_substitute hs hvalid.2 hvalid.1) rfl hfinite)

/-- **An operation that sets a hierarchy** changes one row: something may be new above it. -/
theorem after_of_placed {t u : TypeId} (hplaced : op.placed? = some (t, u)) :
    s.SameForms (op.after s) ∧ (∀ x, x ≠ t → (op.after s).info x = s.info x) ∧
      ∀ v ∈ ((op.after s).info t).above, v ∈ (s.info t).above ∨ v = u := by
  have hedit : ∃ change : TypeInfo → TypeInfo, op.after s = s.edit t change ∧
      (∀ info, (change info).form = info.form ∧ (change info).definition = info.definition ∧
        (change info).arguments = info.arguments) ∧
      ∀ info, ∀ v ∈ (change info).above, v ∈ info.above ∨ v = u := by
    cases op with
    | setBase t base =>
      cases hplaced
      exact ⟨_, rfl, fun _ => ⟨rfl, rfl, rfl⟩, fun _ _ => TypeInfo.mem_above_of_base⟩
    | addInterface t interface =>
      cases hplaced
      refine ⟨_, rfl, fun info => ?_, fun info v hv => ?_⟩
      · split <;> exact ⟨rfl, rfl, rfl⟩
      · split at hv
        · exact .inl hv
        · exact TypeInfo.mem_above_of_interface hv
    | _ => cases hplaced
  obtain ⟨change, hafter, hforms, habove⟩ := hedit
  rw [hafter]
  refine ⟨Store.sameForms_edit hforms, fun x hx => Store.info_edit_of_ne s change hx.symm,
    fun v hv => ?_⟩
  rcases s.info_edit_cases t change t with h | ⟨-, -, h⟩ <;> rw [h] at hv
  · exact .inl hv
  · exact habove _ v hv

end Operation

/-! ### Orderly stores -/

/-- **An orderly store.** -/
structure Store.Orderly (s : Store) : Prop where
  /-- What stands above a type mentions only parameters that the type mentions. -/
  in_scope : s.Scoped
  /-- No bare parameter stands above a type. -/
  not_parameter : ∀ {t u}, u ∈ (s.info t).above → ∀ o k, s.form u ≠ .parameter o k
  /-- Constructed types derive from their definitions. -/
  derives : ∀ {t shape d args}, s.form t = .named shape (some d) args →
    s.Derives (.forType d args) d t

namespace Store

variable {s s' : Store}

/-- An image is a parameter only where a parameter was replaced. -/
theorem not_parameter_of_image {V : Valuation} {m t : TypeId} (h : Image s V m t)
    (hm : ∀ o k, s.form m ≠ .parameter o k) (o : Owner) (k : Nat) : s.form t ≠ .parameter o k := by
  cases h with
  | parameter hp => exact absurd (TypeInfo.form_of_parameter hp) (hm _ _)
  | array _ ht | reference _ ht | named _ ht =>
    rw [ht]
    exact Form.noConfusion

/-- What stands above a type is an image of what stands above the type that it derives from. -/
theorem Derives.exists_image {σ : Substitution} {m t v : TypeId} (h : s.Derives σ m t)
    (hv : v ∈ (s.info t).above) : ∃ u ∈ (s.info m).above, Image s σ.Sends u v := by
  exact exists_mem_above (fun _ => exists_of_rel_some h.base) h.interfaces hv

namespace Orderly

/-- A definition has no parameter above it, so neither has what is constructed from it. -/
theorem not_parameter_of_complete (hs : s.WellFormed)
    (hrest : ∀ {t u}, ¬ (s.form t).IsMade → u ∈ (s.info t).above → ∀ o k,
      s.form u ≠ .parameter o k) {t u : TypeId} (ht : s.Complete t)
    (hu : u ∈ (s.info t).above) (o : Owner) (k : Nat) : s.form u ≠ .parameter o k := by
  by_cases hmade : (s.form t).IsMade
  swap
  · exact hrest hmade hu o k
  cases hf : s.form t with
  | named shape d args =>
    rw [hf] at hmade
    obtain ⟨c, rfl⟩ := Option.isSome_iff_exists.mp hmade
    obtain ⟨v, hv, himage⟩ := (ht.constructed hf).exists_image hu
    obtain ⟨own, hown, -⟩ := hs.constructed hf
    exact not_parameter_of_image himage (hrest (by rw [hown]; exact Bool.false_ne_true) hv) o k
  | array e rank =>
    rcases List.mem_append.mp hu with hu | hu
    · rw [ht.array_base hf] at hu
      obtain rfl : u = Core.array := by simpa using hu
      rw [hs.form_array]
      exact Form.noConfusion
    · obtain ⟨shape, d, hfu⟩ := (ht.array_interfaces hf u hu).named
      rw [hfu]
      exact Form.noConfusion
  | reference e =>
    rw [ht.reference hf] at hu
    cases hu
  | parameter o' k' =>
    rw [hf] at hmade
    cases hmade

/-- **An orderly store stays orderly** while it grows by types that are complete. -/
theorem of_grown (h : s.Orderly) (hs : s.WellFormed) (hgrown : s.Grown s')
    (hcompleted : s.CompletedBy s') : s'.Orderly := by
  have hold : ∀ {t u}, s.Holds t → u ∈ (s'.info t).above → ∀ o k, s'.form u ≠ .parameter o k := by
    intro t u ht hu
    rw [hgrown.info_eq ht] at hu
    rw [hgrown.form_eq (hs.holds_above hu)]
    exact h.not_parameter hu
  have hroot : ∀ {u}, u = Core.object ∨ u = Core.valueType → ∀ o k, s'.form u ≠ .parameter o k := by
    rintro u (rfl | rfl) o k
    · rw [hgrown.wellFormed.form_object]
      exact Form.noConfusion
    · rw [hgrown.wellFormed.form_valueType]
      exact Form.noConfusion
  have hheld : ∀ {t u}, u ∈ (s'.info t).above → s'.Holds t := fun {t u} hu => by
    refine not_not.mp fun hcon => ?_
    rw [info_of_not_holds hcon] at hu
    cases hu
  refine ⟨hgrown.keeps_scoped h.in_scope, fun {t u} hu => ?_, fun {t shape d args} hf => ?_⟩
  · by_cases ht : s.Holds t
    · exact hold ht hu
    · refine not_parameter_of_complete hgrown.wellFormed (fun {t u} hmade hu => ?_)
        (hcompleted t (hheld hu) ht).1 hu
      by_cases ht : s.Holds t
      · exact hold ht hu
      · exact hroot ((hcompleted t (hheld hu) ht).2 hmade u hu)
  · by_cases ht : s.Holds t
    · rw [hgrown.form_eq ht] at hf
      exact (h.derives hf).of_extends hs hgrown.toExtends (hs.holds_definition hf) ht
    · exact (hcompleted t (holds_of_form_ne (by rw [hf]; simp)) ht).1.constructed hf

/-- It stays orderly while rows change and keep what stands above. -/
theorem keep (h : s.Orderly) (hsame : s.SameForms s')
    (hkeep : ∀ t, (s'.info t).base = (s.info t).base ∧
      (s'.info t).interfaces = (s.info t).interfaces) : s'.Orderly := by
  have habove : ∀ t, (s'.info t).above = (s.info t).above := fun t => by
    rw [TypeInfo.above, (hkeep t).1, (hkeep t).2, TypeInfo.above]
  refine ⟨fun t u hu q hq => ?_, fun {t u} hu => ?_, fun {t shape d args} hf => ?_⟩
  · rw [habove] at hu
    exact hsame.mentions_iff.mpr (h.in_scope t u hu q (hsame.mentions_iff.mp hq))
  · rw [habove] at hu
    rw [hsame.form_eq]
    exact h.not_parameter hu
  · rw [hsame.form_eq] at hf
    exact (h.derives hf).of_sameForms hsame (hkeep d) (hkeep t)

/-- **It stays orderly when something is set above a type** that may stand there. -/
theorem place (h : s.Orderly) {t u : TypeId} (hmay : s.MayStandAbove t u) (hsame : s.SameForms s')
    (hother : ∀ x, x ≠ t → s'.info x = s.info x)
    (habove : ∀ v ∈ (s'.info t).above, v ∈ (s.info t).above ∨ v = u) : s'.Orderly := by
  refine ⟨fun x v hv q hq => ?_, fun {x v} hv => ?_, fun {x shape d args} hf => ?_⟩
  · rw [hsame.mentions_iff] at hq ⊢
    by_cases hx : x = t
    · subst hx
      rcases habove v hv with hv | rfl
      · exact h.in_scope x v hv q hq
      · exact hmay.in_scope q hq
    · rw [hother x hx] at hv
      exact h.in_scope x v hv q hq
  · rw [hsame.form_eq]
    by_cases hx : x = t
    · subst hx
      rcases habove v hv with hv | rfl
      · exact h.not_parameter hv
      · exact hmay.not_parameter
    · rw [hother x hx] at hv
      exact h.not_parameter hv
  · -- The type is neither constructed itself nor the definition of a constructed type.
    rw [hsame.form_eq] at hf
    have hdefinition := (TypeInfo.form_eq_named_iff.mp hf).2.1
    have hx : x ≠ t := by
      rintro rfl
      exact absurd (hdefinition.symm.trans hmay.not_constructed) (Option.some_ne_none d)
    have hd : d ≠ t := by
      rintro rfl
      exact hmay.unused x hdefinition
    exact (h.derives hf).of_sameForms hsame (by rw [hother d hd]; exact ⟨rfl, rfl⟩)
      (by rw [hother x hx]; exact ⟨rfl, rfl⟩)

end Orderly

/-! ### The store that a program begins with -/

/-- Above a constructed type stands the same as above its definition, and there are no arrays and no
references. -/
def derivesAlike (s : Store) (t : TypeId) : Bool :=
  match s.form t with
  | .named _ (some d) _ =>
    (s.info d).base = (s.info t).base && (s.info d).interfaces = (s.info t).interfaces
  | .named _ none _ => true
  | .parameter _ _ => true
  | _ => false

/-- Where nothing above a type mentions a parameter, that check is enough. -/
theorem Complete.of_derivesAlike {t : TypeId} (hs : s.WellFormed)
    (hclosed : ∀ {x u}, u ∈ (s.info x).above → ∀ q, ¬ s.Mentions u q)
    (halike : s.derivesAlike t) : s.Complete t := by
  have hself : ∀ {x u : TypeId} {σ : Substitution}, u ∈ (s.info x).above → Image s σ.Sends u u :=
    fun hu => .self hs.toFormed fun q _ hq _ => absurd hq (hclosed hu q)
  rw [derivesAlike] at halike
  refine ⟨fun {shape d args} hf => ?_, fun hf => ?_, fun hf => ?_, fun hf => ?_, fun hf => ?_⟩ <;>
    rw [hf] at halike
  · simp only [Bool.and_eq_true, decide_eq_true_eq] at halike
    refine ⟨?_, ?_⟩
    · rw [← halike.1]
      generalize hb : (s.info d).base = o
      cases o with
      | none => exact .none
      | some b => exact .some (hself (TypeInfo.base_mem_above hb))
    · rw [← halike.2]
      exact List.forall₂_same.mpr fun u hu => hself (TypeInfo.interface_mem_above hu)
  all_goals cases halike

theorem complete_initial (t : TypeId) : initial.Complete t := by
  have halike : ∀ i < 27, initial.derivesAlike ⟨i⟩ := by decide +kernel
  by_cases ht : initial.Holds t
  · rw [Holds, size_initial] at ht
    exact .of_derivesAlike wellFormed_initial closed_above_initial (halike t.index ht)
  · refine .of_not_isMade ?_
    rw [form_of_not_holds ht]
    exact Bool.false_ne_true

theorem orderly_initial : initial.Orderly :=
  ⟨scoped_initial, fun hu _ _ hf => closed_above_initial hu _ (.self hf),
    fun hf => (complete_initial _).constructed hf⟩

/-! ### Runs -/

namespace Reachable

theorem mono {allowed allowed' : Store → Operation → Prop} (h : s.Reachable allowed)
    (himp : ∀ s op, allowed s op → allowed' s op) : s.Reachable allowed' := by
  induction h with
  | initial => exact .initial
  | step _ hvalid hallowed ih => exact .step ih hvalid (himp _ _ hallowed)

/-- **An orderly run leads to an orderly store.** -/
theorem orderly_store (h : s.Reachable Operation.Orderly) : s.Orderly := by
  induction h with
  | initial => exact orderly_initial
  | @step s op hreach hvalid horderly ih =>
    have hs := hreach.wellFormed
    cases hplaced : op.placed? with
    | some place =>
      obtain ⟨hsame, hother, habove⟩ := Operation.after_of_placed (s := s) hplaced
      exact ih.place (horderly.placed _ _ hplaced) hsame hother habove
    | none =>
      rcases Operation.after_cases_of_not_placed hs hvalid horderly.finite hplaced with
        ⟨hgrown, hcompleted⟩ | ⟨hsame, hkeep⟩
      · exact ih.of_grown hs hgrown hcompleted
      · exact ih.keep hsame hkeep

/-- **An orderly run that leaves arrays and references alone** leads to a store in which every type
is complete. -/
theorem complete_store (h : s.Reachable fun s op => op.Orderly s ∧ op.LeavesMade s) (t : TypeId) :
    s.Complete t := by
  induction h generalizing t with
  | initial => exact complete_initial t
  | @step s op hreach hvalid hallowed ih =>
    obtain ⟨horderly, hleaves⟩ := hallowed
    have hs := hreach.wellFormed
    cases hplaced : op.placed? with
    | some place =>
      obtain ⟨hsame, hother, -⟩ := Operation.after_of_placed (s := s) hplaced
      have hmay := horderly.placed _ _ hplaced
      by_cases ht : t = place.1
      · refine .of_not_isMade ?_
        rw [hsame.form_eq, ht]
        exact hleaves _ _ hplaced
      refine (ih t).of_sameForms hsame (fun {shape d args} hf => ?_)
        (by rw [hother t ht]; exact ⟨rfl, rfl⟩)
      have hd : d ≠ place.1 := by
        rintro rfl
        exact hmay.unused t (TypeInfo.form_eq_named_iff.mp hf).2.1
      rw [hother d hd]
      exact ⟨rfl, rfl⟩
    | none =>
      rcases Operation.after_cases_of_not_placed hs hvalid horderly.finite hplaced with
        ⟨hgrown, hcompleted⟩ | ⟨hsame, hkeep⟩
      · exact hcompleted.complete hs hgrown.toExtends ih t
      · exact (ih t).of_sameForms hsame (fun {_ d _} _ => hkeep d) (hkeep t)

end Reachable

end Store

end CallSite
