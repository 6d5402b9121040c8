import CallSite.Proofs.Type.Construction

/-!
# Types that are complete

A type that is made from types is **complete** when what stands above it is what its form asks for
(`Store.Complete`): above a constructed type what stands above its definition with the parameters
replaced, above an array the root of arrays and, for one dimension, what can be walked through. A
row is entered before that, so it is not complete at first; but a computation that returns has
completed every row that it has entered, and one that fails fails only where a hierarchy expands
without end. `Builds` says both, and has one rule for each way to put computations together.

* `Store.Derives`, `Store.Complete` – what stands above a type that is made from types.
* `buildSpec` – the three constructions, by one induction on the bound of their nesting.
-/

namespace CallSite

/-! ### What stands above a type that is made from types -/

/-- A type **derives** from another under a substitution: its base and interfaces are those of the
other with the parameters replaced. -/
structure Store.Derives (s : Store) (σ : Substitution) (m t : TypeId) : Prop where
  /-- It has a base where the other has one. -/
  base : Option.Rel (Image s σ.Sends) (s.info m).base (s.info t).base
  /-- It has as many interfaces, in the same order. -/
  interfaces : List.Forall₂ (Image s σ.Sends) (s.info m).interfaces (s.info t).interfaces

/-- **A type is complete**: what its form asks for stands above it. -/
structure Store.Complete (s : Store) (t : TypeId) : Prop where
  /-- A constructed type derives from its definition under its arguments. -/
  constructed : ∀ {shape d args}, s.form t = .named shape (some d) args →
    s.Derives (.forType d args) d t
  /-- The base of an array is the root of arrays. -/
  array_base : ∀ {e rank}, s.form t = .array e rank → (s.info t).base = some Core.array
  /-- An array of one dimension has one interface, any other array none. -/
  array_length : ∀ {e rank}, s.form t = .array e rank →
    (s.info t).interfaces.length = if rank = 1 then 1 else 0
  /-- It can be walked through and yields its elements. -/
  array_interfaces : ∀ {e rank}, s.form t = .array e rank → ∀ u ∈ (s.info t).interfaces,
    s.IsConstructed Core.enumerableOf [e] u
  /-- Nothing stands above a reference. -/
  reference : ∀ {e}, s.form t = .reference e → (s.info t).above = []

/-! ### Stores that change -/

theorem Substitution.lookup_congr {p q : GenericParameter} (howner : p.owner = q.owner)
    (hposition : p.position = q.position) (σ : Substitution) : σ.lookup p = σ.lookup q := by
  rw [lookup, lookup, howner, hposition]

/-- **Images stay where forms do**: a parameter is known by its place. The forms that matter are
those of the types and of their parts. -/
theorem Image.of_forms {s s' : Store} {H : TypeId → Prop}
    (hpart : ∀ {t u}, H t → u ∈ s.parts t → H u) (hform : ∀ {t}, H t → s'.form t = s.form t)
    {σ : Substitution} {m t : TypeId} (hm : H m) (ht : H t) (himage : Image s σ.Sends m t) :
    Image s' σ.Sends m t := by
  induction himage with
  | @parameter m t p hp hv =>
    obtain ⟨p', hp', howner, hposition⟩ := TypeInfo.form_eq_parameter_iff.mp
      ((hform hm).trans (TypeInfo.form_of_parameter hp))
    refine .parameter hp' ?_
    rw [Substitution.Sends, Substitution.lookup_congr howner hposition]
    exact hv
  | array hfm hft _ ih =>
    exact .array ((hform hm).trans hfm) ((hform ht).trans hft)
      (ih (hpart hm (Store.element_mem_parts hfm)) (hpart ht (Store.element_mem_parts hft)))
  | reference hfm hft _ ih =>
    exact .reference ((hform hm).trans hfm) ((hform ht).trans hft)
      (ih (hpart hm (Store.target_mem_parts hfm)) (hpart ht (Store.target_mem_parts hft)))
  | named hfm hft hhead _ ih =>
    have hfm' := (hform hm).trans hfm
    have hft' := (hform ht).trans hft
    refine .named hfm' hft' ?_ fun k a b ha hb => ih k a b ha hb ?_ ?_
    · rw [Store.head_of_named hfm', Store.head_of_named hft', ← Store.head_of_named hfm,
        ← Store.head_of_named hft, hhead]
    · exact hpart hm (Store.argument_mem_parts hfm (List.mem_of_getElem? ha))
    · exact hpart ht (Store.argument_mem_parts hft (List.mem_of_getElem? hb))

/-- A change of a row that keeps all forms keeps images. -/
theorem Image.of_sameForms {s s' : Store} (h : s.SameForms s') {σ : Substitution} {m t : TypeId}
    (himage : Image s σ.Sends m t) : Image s' σ.Sends m t :=
  himage.of_forms (H := fun _ => True) (fun _ _ => trivial) (fun _ => h.form_eq _) trivial trivial

namespace Store

variable {s s' : Store} {t : TypeId}

theorem IsConstructed.of_extends {d : TypeId} {args : List TypeId} (h : s.IsConstructed d args t)
    (hext : s.Extends s') : s'.IsConstructed d args t := by
  obtain ⟨shape, d', hf⟩ := h.named
  exact ⟨hext.holds h.holds, (hext.head_eq h.holds).trans h.head_eq, shape, d',
    (hext.form_eq h.holds).trans hf⟩

theorem IsConstructed.of_sameForms {d : TypeId} {args : List TypeId}
    (h : s.IsConstructed d args t) (hsame : s.SameForms s') : s'.IsConstructed d args t := by
  obtain ⟨shape, d', hf⟩ := h.named
  refine ⟨hsame.holds_iff.mpr h.holds, ?_, shape, d', (hsame.form_eq t).trans hf⟩
  rw [head, hsame.definition_eq]
  exact h.head_eq

/-- A type with one argument mentions what that argument mentions. -/
theorem IsConstructed.mentions_of_single {d e q : TypeId} (h : s.IsConstructed d [e] t)
    (hq : s.Mentions t q) : s.Mentions e q := by
  obtain ⟨shape, d', hf⟩ := h.named
  cases hq with
  | self hq => exact absurd (hf.symm.trans hq) Form.noConfusion
  | part ha hq =>
    rw [parts, hf] at ha
    rw [← List.mem_singleton.mp ha]
    exact hq

/-- The definition of a constructed type is held. -/
theorem Formed.holds_definition (hs : s.Formed) {shape : Shape} {d : TypeId} {args : List TypeId}
    (hf : s.form t = .named shape (some d) args) : s.Holds d := by
  obtain ⟨own, hown, -, hne, -⟩ := hs.constructed hf
  exact holds_of_form_ne (by rw [hown]; simp [hne])

theorem Derives.of_extends {σ : Substitution} {m : TypeId} (h : s.Derives σ m t)
    (hs : s.WellFormed) (hext : s.Extends s') (hm : s.Holds m) (ht : s.Holds t) :
    s'.Derives σ m t := by
  refine ⟨?_, ?_⟩
  · rw [hext.info_eq hm, hext.info_eq ht]
    exact rel_imp_of_mem h.base fun a b ha hb himage => himage.of_extends hs.toFormed hext
      (hs.holds_above (TypeInfo.base_mem_above ha)) (hs.holds_above (TypeInfo.base_mem_above hb))
  · rw [hext.info_eq hm, hext.info_eq ht]
    exact forall₂_imp_of_mem h.interfaces fun a ha b hb himage =>
      himage.of_extends hs.toFormed hext (hs.holds_above (TypeInfo.interface_mem_above ha))
        (hs.holds_above (TypeInfo.interface_mem_above hb))

/-- **A type stays complete** while the store grows. -/
theorem Complete.of_extends (h : s.Complete t) (hs : s.WellFormed) (hext : s.Extends s')
    (ht : s.Holds t) : s'.Complete t := by
  have hform := hext.form_eq ht
  have hinfo := hext.info_eq ht
  refine ⟨fun hf => ?_, fun hf => ?_, fun hf => ?_, fun hf u hu => ?_, fun hf => ?_⟩ <;>
    rw [hform] at hf
  · exact (h.constructed hf).of_extends hs hext (hs.holds_definition hf) ht
  · rw [hinfo]
    exact h.array_base hf
  · rw [hinfo]
    exact h.array_length hf
  · rw [hinfo] at hu
    exact (h.array_interfaces hf u hu).of_extends hext
  · rw [hinfo]
    exact h.reference hf

theorem Derives.of_sameForms {σ : Substitution} {m : TypeId} (h : s.Derives σ m t)
    (hsame : s.SameForms s') (hm : (s'.info m).base = (s.info m).base ∧
      (s'.info m).interfaces = (s.info m).interfaces) (ht : (s'.info t).base = (s.info t).base ∧
      (s'.info t).interfaces = (s.info t).interfaces) : s'.Derives σ m t := by
  refine ⟨?_, ?_⟩
  · rw [hm.1, ht.1]
    exact rel_imp_of_mem h.base fun _ _ _ _ himage => himage.of_sameForms hsame
  · rw [hm.2, ht.2]
    exact h.interfaces.imp fun _ _ himage => himage.of_sameForms hsame

/-- A type stays complete while another row changes, if that is not the row of its definition. -/
theorem Complete.of_sameForms (h : s.Complete t) (hsame : s.SameForms s')
    (hd : ∀ {shape d args}, s.form t = .named shape (some d) args →
      (s'.info d).base = (s.info d).base ∧ (s'.info d).interfaces = (s.info d).interfaces)
    (ht : (s'.info t).base = (s.info t).base ∧ (s'.info t).interfaces = (s.info t).interfaces) :
    s'.Complete t := by
  refine ⟨fun hf => ?_, fun hf => ?_, fun hf => ?_, fun hf u hu => ?_, fun hf => ?_⟩ <;>
    rw [hsame.form_eq] at hf
  · exact (h.constructed hf).of_sameForms hsame (hd hf) ht
  · rw [ht.1]
    exact h.array_base hf
  · rw [ht.2]
    exact h.array_length hf
  · rw [ht.2] at hu
    exact (h.array_interfaces hf u hu).of_sameForms hsame
  · rw [TypeInfo.above, ht.1, ht.2]
    exact h.reference hf

/-- A type that is not made from types has nothing to complete. -/
theorem Complete.of_not_isMade (h : ¬ (s.form t).IsMade) : s.Complete t := by
  refine ⟨fun hf => ?_, fun hf => ?_, fun hf => ?_, fun hf => ?_, fun hf => ?_⟩ <;> rw [hf] at h
  · exact absurd rfl h
  all_goals exact absurd trivial h

/-- A change of a row that is not about what stands above it. -/
theorem keepsAbove_edit {change : TypeInfo → TypeInfo}
    (h : ∀ info, (change info).base = info.base ∧ (change info).interfaces = info.interfaces)
    (u : TypeId) : ((s.edit t change).info u).base = (s.info u).base ∧
      ((s.edit t change).info u).interfaces = (s.info u).interfaces := by
  rcases info_edit_cases s t change u with hu | ⟨-, -, hu⟩ <;> rw [hu]
  · exact ⟨rfl, rfl⟩
  · exact h _

/-- **What was added is complete**: a type that was not there before is complete, and nothing but a
root stands above it unless it is made from types. -/
def CompletedBy (s s' : Store) : Prop :=
  ∀ t, s'.Holds t → ¬ s.Holds t → s'.Complete t ∧
    (¬ (s'.form t).IsMade → ∀ u ∈ (s'.info t).above, u = Core.object ∨ u = Core.valueType)

theorem CompletedBy.refl (s : Store) : s.CompletedBy s :=
  fun _ ht hn => absurd ht hn

theorem CompletedBy.trans {s'' : Store} (h : s.CompletedBy s') (hs' : s'.WellFormed)
    (hext : s'.Extends s'') (h' : s'.CompletedBy s'') : s.CompletedBy s'' := by
  intro t ht hn
  by_cases hmid : s'.Holds t
  · obtain ⟨hcomplete, habove⟩ := h t hmid hn
    refine ⟨hcomplete.of_extends hs' hext hmid, fun hmade => ?_⟩
    rw [hext.form_eq hmid] at hmade
    rw [hext.info_eq hmid]
    exact habove hmade
  · exact h' t ht hmid

/-- Where every type was complete, every type is. -/
theorem CompletedBy.complete (h : s.CompletedBy s') (hs : s.WellFormed) (hext : s.Extends s')
    (hall : ∀ t, s.Complete t) (t : TypeId) : s'.Complete t := by
  by_cases ht : s.Holds t
  · exact (hall t).of_extends hs hext ht
  by_cases ht' : s'.Holds t
  · exact (h t ht' ht).1
  · refine .of_not_isMade ?_
    rw [form_of_not_holds ht']
    exact Bool.false_ne_true

/-- What was added stays complete while rows change and keep what stands above. -/
theorem CompletedBy.keep {s'' : Store} (h : s.CompletedBy s') (hsame : s'.SameForms s'')
    (hkeep : ∀ t, (s''.info t).base = (s'.info t).base ∧
      (s''.info t).interfaces = (s'.info t).interfaces) : s.CompletedBy s'' := by
  intro t ht hn
  obtain ⟨hcomplete, habove⟩ := h t (hsame.holds_iff.mp ht) hn
  refine ⟨hcomplete.of_sameForms hsame (fun {_ d _} _ => hkeep d) (hkeep t), fun hmade => ?_⟩
  rw [hsame.form_eq] at hmade
  rw [TypeInfo.above, (hkeep t).1, (hkeep t).2]
  exact habove hmade

end Store

/-! ### Computations that complete what they add -/

/-- The hierarchy expands without end. -/
def TypeError.IsEndless : TypeError → Prop
  | .endless _ => True
  | _ => False

/-- **A computation completes what it adds** to a store, and what it returns has a property; or it
fails where a hierarchy expands without end. The computation may begin after the store has grown
already. -/
def BuildsFrom {α : Type} (s₀ : Store) (x : TypeM α) (s : Store) (Q : α → Store → Prop) : Prop :=
  match x s with
  | .ok a s' => s₀.Grown s' ∧ s₀.CompletedBy s' ∧ Q a s'
  | .error e s' => s₀.Grown s' ∧ e.IsEndless

/-- A computation completes what it adds to the store that it begins with. -/
abbrev Builds {α : Type} (x : TypeM α) (s : Store) (Q : α → Store → Prop) : Prop :=
  BuildsFrom s x s Q

section Rules

variable {α β : Type} {s₀ s : Store} {x : TypeM α} {Q : α → Store → Prop}

namespace BuildsFrom

theorem of_ok (h : BuildsFrom s₀ x s Q) {a : α} {s' : Store} (hx : x s = .ok a s') :
    s₀.Grown s' ∧ s₀.CompletedBy s' ∧ Q a s' := by
  rw [BuildsFrom, hx] at h
  exact h

/-- Why the computation fails. -/
theorem of_error (h : BuildsFrom s₀ x s Q) {e : TypeError} {s' : Store}
    (hx : x s = .error e s') : s₀.Grown s' ∧ e.IsEndless := by
  rw [BuildsFrom, hx] at h
  exact h

theorem ensures (h : BuildsFrom s₀ x s Q) : EnsuresFrom s₀ x s Q := by
  unfold EnsuresFrom
  cases hx : x s with
  | ok a s' => exact ⟨(h.of_ok hx).1, (h.of_ok hx).2.2⟩
  | error e s' => exact (h.of_error hx).1

/-- What a computation does is seen by its run, which may be that of another one from another
store. -/
theorem of_run_eq {y : TypeM α} {s₁ : Store} (hrun : x s = y s₁) (h : BuildsFrom s₀ y s₁ Q) :
    BuildsFrom s₀ x s Q := by
  rwa [BuildsFrom, hrun]

/-- What follows where the computation returns. -/
theorem imp (h : BuildsFrom s₀ x s Q) {Q' : α → Store → Prop}
    (himp : ∀ a s', x s = .ok a s' → s₀.Grown s' → Q a s' → Q' a s') : BuildsFrom s₀ x s Q' := by
  unfold BuildsFrom
  cases hx : x s with
  | ok a s' =>
    obtain ⟨hgrown, hcompleted, ha⟩ := h.of_ok hx
    exact ⟨hgrown, hcompleted, himp a s' hx hgrown ha⟩
  | error e s' => exact h.of_error hx

/-- A computation may begin after a store has grown. -/
theorem of_builds (h₀ : s₀.Grown s) (hc : s₀.CompletedBy s) (h : BuildsFrom s x s Q) :
    BuildsFrom s₀ x s Q := by
  unfold BuildsFrom
  cases hx : x s with
  | ok a s' =>
    obtain ⟨hgrown, hcompleted, ha⟩ := h.of_ok hx
    exact ⟨h₀.trans hgrown, hc.trans h₀.wellFormed hgrown.toExtends hcompleted, ha⟩
  | error e s' => exact ⟨h₀.trans (h.of_error hx).1, (h.of_error hx).2⟩

theorem get_bind {f : Store → TypeM β} {Q' : β → Store → Prop} (h : BuildsFrom s₀ (f s) s Q') :
    BuildsFrom s₀ (get >>= f) s Q' := h

/-- A step that is known to succeed, before the rest. -/
theorem bind_of_ok {a : α} {s₁ : Store} (hx : x s = .ok a s₁) {f : α → TypeM β}
    {Q' : β → Store → Prop} (h : BuildsFrom s₀ (f a) s₁ Q') : BuildsFrom s₀ (x >>= f) s Q' := by
  rw [BuildsFrom, bind_apply_of_ok hx]
  exact h

/-- One computation after another, neither of which touches what was there at first. -/
theorem bind (h : BuildsFrom s₀ x s Q) {f : α → TypeM β} {Q' : β → Store → Prop}
    (hf : ∀ a s', s₀.Grown s' → s₀.CompletedBy s' → Q a s' → BuildsFrom s₀ (f a) s' Q') :
    BuildsFrom s₀ (x >>= f) s Q' := by
  cases hx : x s with
  | ok a s' =>
    obtain ⟨hgrown, hcompleted, ha⟩ := h.of_ok hx
    exact bind_of_ok hx (hf a s' hgrown hcompleted ha)
  | error e s' =>
    rw [BuildsFrom, bind_apply_of_error hx]
    exact h.of_error hx

/-- One computation for each item, none of which touches what was there at first. -/
theorem forM {f : α → TypeM PUnit} (items : List α) (h₀ : s₀.Grown s) (hc : s₀.CompletedBy s)
    (hf : ∀ a ∈ items, ∀ s', s₀.Grown s' → s₀.CompletedBy s' → s.size ≤ s'.size →
      BuildsFrom s₀ (f a) s' fun _ s'' => s'.size ≤ s''.size) :
    BuildsFrom s₀ (items.forM f) s fun _ s' => s.size ≤ s'.size := by
  induction items generalizing s with
  | nil => exact ⟨h₀, hc, Nat.le_refl _⟩
  | cons a items ih =>
    refine (hf a List.mem_cons_self s h₀ hc (Nat.le_refl _)).bind fun _ s' h₀' hc' hle => ?_
    refine (ih h₀' hc' fun b hb s'' h₀'' hc'' hle' => ?_).imp fun _ _ _ _ => Nat.le_trans hle
    exact hf b (List.mem_cons_of_mem _ hb) s'' h₀'' hc'' (Nat.le_trans hle hle')

end BuildsFrom

namespace Builds

theorem pure (hs : s.WellFormed) {a : α} (h : Q a s) : Builds (Pure.pure a) s Q :=
  ⟨.refl hs, .refl s, h⟩

theorem get_bind {f : Store → TypeM β} {Q' : β → Store → Prop} (h : Builds (f s) s Q') :
    Builds (get >>= f) s Q' := h

theorem imp (h : Builds x s Q) {Q' : α → Store → Prop}
    (himp : ∀ a s', s.Grown s' → Q a s' → Q' a s') : Builds x s Q' :=
  BuildsFrom.imp h fun a s' _ => himp a s'

/-- What is known of the result from elsewhere. -/
theorem and (h : Builds x s Q) {Q' : α → Store → Prop} (h' : Ensures x s Q') : Builds x s Q' :=
  BuildsFrom.imp h fun _ _ hx _ _ => (h'.of_ok hx).2

/-- What is known of the result is known of what the computation returned. -/
theorem ran (h : Builds x s Q) : Builds x s fun a s' => x s = .ok a s' ∧ Q a s' :=
  BuildsFrom.imp h fun _ _ hx _ ha => ⟨hx, ha⟩

/-- One computation after another, where the store has grown before. -/
theorem bind_from (h₀ : s₀.Grown s) (h : Builds x s Q) {f : α → TypeM β} {Q' : β → Store → Prop}
    (hf : ∀ a s', s.Grown s' → s.CompletedBy s' → Q a s' → BuildsFrom s₀ (f a) s' Q') :
    BuildsFrom s₀ (x >>= f) s Q' := by
  cases hx : x s with
  | ok a s' =>
    obtain ⟨hgrown, hcompleted, ha⟩ := h.of_ok hx
    exact .bind_of_ok hx (hf a s' hgrown hcompleted ha)
  | error e s' =>
    rw [BuildsFrom, bind_apply_of_error hx]
    exact ⟨h₀.trans (h.of_error hx).1, (h.of_error hx).2⟩

/-- **One computation after another.** -/
theorem bind (h : Builds x s Q) (hs : s.WellFormed) {f : α → TypeM β} {Q' : β → Store → Prop}
    (hf : ∀ a s', s.Grown s' → Q a s' → Builds (f a) s' Q') : Builds (x >>= f) s Q' :=
  bind_from (.refl hs) h fun a s' hgrown hcompleted ha =>
    .of_builds hgrown hcompleted (hf a s' hgrown ha)

/-- A computation for each item of a list. What is known of a result has to persist while the
store grows. -/
theorem mapM {f : α → TypeM β} {P : α → β → Store → Prop} (hs : s.WellFormed)
    (hmono : ∀ a b s' s'', s'.Grown s'' → s'.WellFormed → P a b s' → P a b s'') (items : List α)
    (hf : ∀ a ∈ items, ∀ s', s.Grown s' → Builds (f a) s' (P a)) :
    Builds (items.mapM f) s fun bs s' => List.Forall₂ (P · · s') items bs := by
  induction items generalizing s with
  | nil => exact .pure hs .nil
  | cons a items ih =>
    rw [List.mapM_cons]
    refine (hf a List.mem_cons_self s (.refl hs)).bind hs fun b s' hgrown hb => ?_
    refine (ih hgrown.wellFormed fun a' ha' s'' hgrown' =>
      hf a' (List.mem_cons_of_mem _ ha') s'' (hgrown.trans hgrown')).bind hgrown.wellFormed
      fun bs s'' hgrown' hbs => ?_
    exact .pure hgrown'.wellFormed (.cons (hmono _ _ _ _ hgrown' hgrown.wellFormed hb) hbs)

/-- A computation for what may be there. -/
theorem option_mapM {f : α → TypeM β} {P : α → β → Store → Prop} (hs : s.WellFormed)
    (o : Option α) (hf : ∀ a, o = some a → Builds (f a) s (P a)) :
    Builds (o.mapM f) s fun o' s' => Option.Rel (P · · s') o o' := by
  cases o with
  | none => exact .pure hs .none
  | some a => exact (hf a rfl).bind hs fun b s' hgrown hb => .pure hgrown.wellFormed (.some hb)

end Builds

end Rules

/-! ### Rows that are complete -/

/-- A row that is appended is complete: nothing else is added. -/
theorem Store.completedBy_add {s : Store} {row : TypeInfo}
    (hcomplete : (s.add row).2.Complete s.next) (hmade : row.form.IsMade) :
    s.CompletedBy (s.add row).2 := by
  intro t ht hn
  obtain rfl : t = s.next := ((holds_add s row).mp ht).resolve_left hn
  exact ⟨hcomplete, fun hnot => absurd (form_add_next s row ▸ hmade) hnot⟩

/-- Generic parameters have nothing above them. -/
theorem Store.completedBy_addParameters (owner : Owner) (position : Nat) (names : List String)
    (s : Store) : s.CompletedBy (addParameters owner position names s).2 := by
  intro t ht hn
  rcases holds_addParameters ht with ht | ⟨k, hk, rfl⟩
  · exact absurd ht hn
  · have hinfo := info_addParameters owner position names s hk
    refine ⟨.of_not_isMade ?_, fun _ u hu => ?_⟩
    · rw [form, hinfo]
      exact id
    · rw [hinfo] at hu
      cases hu

/-- A definition begins with a root above it. -/
theorem Store.completedBy_define (s : Store) (name : String) (kind : DefinitionKind)
    (names : List String) : s.CompletedBy (s.define name kind names).2 := by
  intro t ht hn
  refine ⟨.of_not_isMade ?_, fun _ u hu => ?_⟩
  · rcases form_define_cases s name kind names t with ⟨hne, -⟩ | ⟨-, shape, hf⟩ | ⟨k, -, hf⟩
    · rcases holds_define_cases s name kind names ht with h | h | ⟨k, hk⟩
      · exact absurd h hn
      · exact absurd h hne
      · obtain ⟨n, hinfo⟩ := info_define_own s name kind names hk
        rw [form, hinfo]
        exact id
    · rw [hf]
      exact Bool.false_ne_true
    · rw [hf]
      exact id
  · exact (mem_above_define name kind names hu).resolve_left fun h => hn h.1

theorem builds_byRef {s : Store} (hs : s.WellFormed) {e : TypeId} (he : s.Holds e) :
    Builds (byRef e) s fun u s' => s'.Holds u ∧ s'.form u = .reference e := by
  have hensures := ensures_byRef hs he
  cases hfind : s.byRef? e with
  | some t =>
    have hrun : byRef e s = .ok t s := by
      rw [byRef, get_bind_apply, hfind]
      rfl
    rw [Builds, BuildsFrom, hrun]
    exact ⟨.refl hs, .refl s, (hensures.of_ok hrun).2⟩
  | none =>
    let row : TypeInfo :=
      { name := (s.info e).name ++ "&", shape := .byRefType e, isSealed := true }
    have hrun : byRef e s = .ok s.next (s.add row).2 := by
      rw [byRef, get_bind_apply, hfind]
      rfl
    rw [Builds, BuildsFrom, hrun]
    obtain ⟨hgrown, hnext⟩ := hensures.of_ok hrun
    refine ⟨hgrown, Store.completedBy_add ?_ trivial, hnext⟩
    refine ⟨fun hf => ?_, fun hf => ?_, fun hf => ?_, fun hf => ?_, fun _ => ?_⟩
    · exact absurd (hnext.2.symm.trans hf) Form.noConfusion
    · exact absurd (hnext.2.symm.trans hf) Form.noConfusion
    · exact absurd (hnext.2.symm.trans hf) Form.noConfusion
    · exact absurd (hnext.2.symm.trans hf) Form.noConfusion
    · rw [Store.info_add_next]
      rfl

/-- An array is complete when it is made: its interfaces are known by then. -/
theorem builds_array {s : Store} (hs : s.WellFormed) {e : TypeId} (he : s.Holds e) {rank : Nat}
    (hrank : 1 ≤ rank) {interfaces : List TypeId}
    (hlen : interfaces.length = if rank = 1 then 1 else 0)
    (hinterfaces : ∀ u ∈ interfaces, s.IsConstructed Core.enumerableOf [e] u) :
    Builds (do
      let s ← get
      match s.array? e rank with
      | some t => return t
      | none => addType (arrayInfo s e rank interfaces)) s fun u s' =>
        s'.Holds u ∧ s'.form u = .array e rank := by
  have hensures := ensures_array hs he hrank fun u hu =>
    ⟨(hinterfaces u hu).holds, fun q hq => (hinterfaces u hu).mentions_of_single hq⟩
  refine Builds.get_bind ?_
  cases hfind : s.array? e rank with
  | some t =>
    have h := hensures.of_ok (show _ = EStateM.Result.ok t s by rw [get_bind_apply, hfind]; rfl)
    exact ⟨.refl hs, .refl s, h.2⟩
  | none =>
    obtain ⟨hgrown, hnext⟩ := hensures.of_ok
      (show _ = EStateM.Result.ok s.next (s.add (arrayInfo s e rank interfaces)).2 by
        rw [get_bind_apply, hfind]; rfl)
    refine ⟨hgrown, Store.completedBy_add ?_ trivial, hnext⟩
    have hinfo := Store.info_add_next s (arrayInfo s e rank interfaces)
    refine ⟨fun hf => ?_, fun hf => ?_, fun hf => ?_, fun hf u hu => ?_, fun hf => ?_⟩
    · exact absurd (hnext.2.symm.trans hf) Form.noConfusion
    · rw [hinfo]
      rfl
    · obtain ⟨-, rfl⟩ := Form.array.inj (hnext.2.symm.trans hf)
      rw [hinfo]
      exact hlen
    · obtain ⟨rfl, -⟩ := Form.array.inj (hnext.2.symm.trans hf)
      rw [hinfo] at hu
      exact (hinterfaces u hu).of_extends hgrown.toExtends
    · exact absurd (hnext.2.symm.trans hf) Form.noConfusion

/-! ### What stands above a constructed type -/

section Edit

variable {s : Store} {t d : TypeId} {shape : Shape} {args : List TypeId} {base : Option TypeId}
  {interfaces : List TypeId}

/-- A definition is not constructed itself. -/
theorem ne_definition (hs : s.Formed) (hf : s.form t = .named shape (some d) args) {u d' : TypeId}
    {shape' : Shape} {args' : List TypeId} (hu : s.form u = .named shape' (some d') args') :
    t ≠ d' := by
  rintro rfl
  obtain ⟨own, hown, -⟩ := hs.constructed hu
  cases hf.symm.trans hown

/-- **A constructed type is complete** when it is given images of what stands above its
definition. -/
theorem complete_edit_self (hs : s.Formed) (hf : s.form t = .named shape (some d) args)
    (hbase : Option.Rel (Image s (Substitution.forType d args).Sends) (s.info d).base base)
    (hinterfaces : List.Forall₂ (Image s (Substitution.forType d args).Sends)
      (s.info d).interfaces interfaces) :
    (s.edit t fun row => { row with base := base, interfaces := interfaces }).Complete t := by
  have hsame : s.SameForms (s.edit t fun row =>
      { row with base := base, interfaces := interfaces }) :=
    Store.sameForms_edit fun info => ⟨rfl, rfl, rfl⟩
  have hd : (s.edit t fun row => { row with base := base, interfaces := interfaces }).info d =
      s.info d :=
    Store.info_edit_of_ne _ _ (ne_definition hs hf hf)
  have ht := Store.info_edit_self (fun row =>
    { row with base := base, interfaces := interfaces }) (Store.holds_of_form_ne (by rw [hf]; simp))
  refine ⟨fun {shape' d' args'} hf' => ?_, fun hf' => ?_, fun hf' => ?_, fun hf' => ?_,
    fun hf' => ?_⟩ <;> rw [hsame.form_eq, hf] at hf'
  · obtain ⟨-, hd', rfl⟩ := Form.named.inj hf'
    obtain rfl := Option.some.inj hd'
    refine ⟨?_, ?_⟩ <;> rw [hd, ht]
    · exact rel_imp_of_mem hbase fun _ _ _ _ himage => himage.of_sameForms hsame
    · exact hinterfaces.imp fun _ _ himage => himage.of_sameForms hsame
  all_goals exact absurd hf' Form.noConfusion

/-- Any other type stays complete. -/
theorem complete_edit_of_ne (hs : s.Formed) (hf : s.form t = .named shape (some d) args)
    {u : TypeId} (hu : u ≠ t) (h : s.Complete u) :
    (s.edit t fun row => { row with base := base, interfaces := interfaces }).Complete u := by
  refine h.of_sameForms (Store.sameForms_edit fun info => ⟨rfl, rfl, rfl⟩) (fun hfu => ?_) ?_
  · rw [Store.info_edit_of_ne _ _ (ne_definition hs hf hfu)]
    exact ⟨rfl, rfl⟩
  · rw [Store.info_edit_of_ne _ _ hu.symm]
    exact ⟨rfl, rfl⟩

end Edit

/-- **A construction completes what it adds**: the constructed type is given what stands above it,
and what was made on the way stays complete. -/
theorem completedBy_construct {s s₃ : Store} {d : TypeId} {args : List TypeId}
    (hgrown₁ : s.Grown (s.add (constructedInfo (s.info d) d args)).2)
    (hgrown₃ : (s.add (constructedInfo (s.info d) d args)).2.Grown s₃)
    (hcompleted : (s.add (constructedInfo (s.info d) d args)).2.CompletedBy s₃) {shape : Shape}
    (hrow : (constructedInfo (s.info d) d args).form = .named shape (some d) args)
    (hheld : s.Holds d) {base : Option TypeId} {interfaces : List TypeId}
    (hbase : Option.Rel (Image s₃ (Substitution.forType d args).Sends) (s.info d).base base)
    (hinterfaces : List.Forall₂ (Image s₃ (Substitution.forType d args).Sends)
      (s.info d).interfaces interfaces) :
    s.CompletedBy (s₃.edit s.next fun row =>
      { row with base := base, interfaces := interfaces }) := by
  have hs₃ := hgrown₃.wellFormed.toFormed
  have hnext : (s.add (constructedInfo (s.info d) d args)).2.Holds s.next :=
    (Store.holds_add s _).mpr (.inr rfl)
  have hform : s₃.form s.next = .named shape (some d) args :=
    (hgrown₃.form_eq hnext).trans ((Store.form_add_next s _).trans hrow)
  have hsame : s₃.SameForms (s₃.edit s.next fun row =>
      { row with base := base, interfaces := interfaces }) :=
    Store.sameForms_edit fun info => ⟨rfl, rfl, rfl⟩
  rw [← (hgrown₁.trans hgrown₃).info_eq hheld] at hbase hinterfaces
  intro t ht hn
  by_cases htn : t = s.next
  · subst htn
    refine ⟨complete_edit_self hs₃ hform hbase hinterfaces, fun hnot => absurd ?_ hnot⟩
    rw [hsame.form_eq, hform]
    rfl
  · have hnew : ¬ (s.add (constructedInfo (s.info d) d args)).2.Holds t := fun hcon =>
      ((Store.holds_add s _).mp hcon).elim hn htn
    obtain ⟨hcomplete, habove⟩ := hcompleted t (hsame.holds_iff.mp ht) hnew
    refine ⟨complete_edit_of_ne hs₃ hform htn hcomplete, fun hmade => ?_⟩
    rw [hsame.form_eq] at hmade
    rw [Store.info_edit_of_ne _ _ (Ne.symm htn)]
    exact habove hmade

/-! ### The three constructions -/

/-- What the three constructions complete, with a bound on their nesting. -/
structure BuildSpec (depth : Nat) : Prop where
  /-- A substitution. -/
  substitute : ∀ {σ : Substitution} {t : TypeId} {s : Store}, s.WellFormed → s.Holds t →
    σ.HeldBy s → Builds (substituteWithin depth σ t) s fun u s' =>
      s'.Holds u ∧ Image s' σ.Sends t u
  /-- A construction that is given a definition and as many arguments as it has parameters. -/
  construct : ∀ {d : TypeId} {args : List TypeId} {s : Store}, s.WellFormed →
    (∀ a ∈ args, s.Holds a) → (s.info d).isDefinition →
    (s.info d).arguments.length = args.length →
    Builds (constructWithin depth d args) s fun u s' => s'.IsConstructed d args u
  /-- An array. -/
  array : ∀ {e : TypeId} {rank : Nat} {s : Store}, s.WellFormed → s.Holds e →
    Builds (arrayOfWithin depth e rank) s fun u s' => s'.Holds u ∧ s'.form u = .array e (max rank 1)

section Step

variable {depth : Nat} (spec : BuildSpec depth)

include spec

theorem BuildSpec.substituteAll {σ : Substitution} {s : Store} (hs : s.WellFormed)
    (hσ : σ.HeldBy s) {ts : List TypeId} (hts : ∀ t ∈ ts, s.Holds t) :
    Builds (ts.mapM (substituteWithin depth σ)) s fun us s' =>
      List.Forall₂ (fun t u => s'.Holds t ∧ s'.Holds u ∧ Image s' σ.Sends t u) ts us := by
  refine .mapM (P := fun t u s' => s'.Holds t ∧ s'.Holds u ∧ Image s' σ.Sends t u) hs ?_ ts ?_
  · intro t u s' s'' hgrown hs' ⟨ht, hu, himage⟩
    exact ⟨hgrown.holds ht, hgrown.holds hu,
      himage.of_extends hs'.toFormed hgrown.toExtends ht hu⟩
  · intro t ht s' hgrown
    refine (spec.substitute hgrown.wellFormed (hgrown.holds (hts t ht))
      (hσ.of_extends hgrown.toExtends)).imp fun u s'' hgrown' hu => ?_
    exact ⟨hgrown'.holds (hgrown.holds (hts t ht)), hu⟩

/-- The definition of a type that is there has as many parameters as the type has arguments. -/
theorem builds_replaceArguments {σ : Substitution} {t : TypeId} {s : Store} (hs : s.WellFormed)
    (ht : s.Holds t) (hσ : σ.HeldBy s) {shape : Shape} {d : Option TypeId} {as : List TypeId}
    (hf : s.form t = .named shape d as) (hne : as ≠ []) :
    Builds (do
      let us ← as.mapM (substituteWithin depth σ)
      if us = as then return t else constructWithin depth (s.head t) us) s fun _ _ => True := by
  refine (spec.substituteAll hs hσ fun a ha =>
    hs.holds_part (Store.argument_mem_parts hf ha)).bind hs fun us s' hgrown hus => ?_
  split
  case isTrue => exact .pure hgrown.wellFormed trivial
  case isFalse =>
    obtain ⟨own, hown, hlen⟩ := hgrown.wellFormed.form_head ((hgrown.form_eq ht).trans hf)
    rw [hgrown.head_eq ht] at hown
    refine (spec.construct hgrown.wellFormed (fun u hu => ?_) ?_ ?_).imp fun _ _ _ _ => trivial
    · obtain ⟨a, -, -, hu, -⟩ := exists_mem_of_forall₂_right hus hu
      exact hu
    · refine TypeInfo.isDefinition_of_form hown ?_
      rintro rfl
      exact hne (List.eq_nil_of_length_eq_zero hlen.symm)
    · rw [(TypeInfo.form_eq_named_iff.mp hown).2.2.1, hlen, hus.length_eq]

theorem builds_substituteWithin {σ : Substitution} {t : TypeId} {s : Store} (hs : s.WellFormed)
    (ht : s.Holds t) (hσ : σ.HeldBy s) :
    Builds (substituteWithin (depth + 1) σ t) s fun u s' =>
      s'.Holds u ∧ Image s' σ.Sends t u := by
  refine Builds.and (Q := fun _ _ => True) ?_ (ensures_substituteWithin (constructionSpec depth) hs
    ht hσ)
  by_cases hempty : σ.isEmpty
  · exact BuildsFrom.of_run_eq (substituteWithin_of_isEmpty hempty depth t s)
      (Builds.pure (a := t) hs trivial)
  cases hf : s.form t with
  | parameter o k =>
    obtain ⟨p, hp, -⟩ := TypeInfo.form_eq_parameter_iff.mp hf
    exact BuildsFrom.of_run_eq (substituteWithin_of_parameter hempty hp depth)
      (Builds.pure (a := (σ.lookup p).getD t) hs trivial)
  | array e rank =>
    refine BuildsFrom.of_run_eq (substituteWithin_of_array hempty hf depth) ?_
    refine (spec.substitute hs (hs.holds_part (Store.element_mem_parts hf)) hσ).bind hs
      fun u s' hgrown hu => ?_
    split
    · exact .pure hgrown.wellFormed trivial
    · exact (spec.array hgrown.wellFormed hu.1).imp fun _ _ _ _ => trivial
  | reference e =>
    refine BuildsFrom.of_run_eq (substituteWithin_of_reference hempty hf depth) ?_
    refine (spec.substitute hs (hs.holds_part (Store.target_mem_parts hf)) hσ).bind hs
      fun u s' hgrown hu => ?_
    split
    · exact .pure hgrown.wellFormed trivial
    · exact (builds_byRef hgrown.wellFormed hu.1).imp fun _ _ _ _ => trivial
  | named shape d as =>
    refine BuildsFrom.of_run_eq (substituteWithin_of_named hempty hf depth) ?_
    split
    case isTrue => exact Builds.pure hs trivial
    case isFalse hne => exact builds_replaceArguments spec hs ht hσ hf hne

theorem builds_constructWithin {d : TypeId} {args : List TypeId} {s : Store}
    (hs : s.WellFormed) (hargs : ∀ a ∈ args, s.Holds a) (hdef : (s.info d).isDefinition)
    (hlen : (s.info d).arguments.length = args.length) :
    Builds (constructWithin (depth + 1) d args) s fun u s' => s'.IsConstructed d args u := by
  refine Builds.and (Q := fun _ _ => True) ?_ (ensures_constructWithin (constructionSpec depth) hs
    hargs)
  have hheld := Store.holds_of_isDefinition hdef
  obtain ⟨-, hnot⟩ | ⟨-, ⟨t, hrun, -⟩ | ⟨hown, hnone, hrun⟩⟩ :=
    constructWithin_cases depth d args s
  · exact absurd ⟨hdef, hlen⟩ hnot
  · exact BuildsFrom.of_run_eq hrun (Builds.pure (a := t) hs trivial)
  · obtain ⟨shape, hrow, hgrown₁⟩ := grown_add_constructed hs hargs hdef hlen hown hnone
    refine BuildsFrom.of_run_eq hrun ?_
    have hs₁ := hgrown₁.wellFormed
    have hσ : (Substitution.forType d args).HeldBy
        (s.add (constructedInfo (s.info d) d args)).2 :=
      .forType fun a ha => hgrown₁.holds (hargs a ha)
    have habove : ∀ u ∈ (s.info d).above,
        (s.add (constructedInfo (s.info d) d args)).2.Holds u := fun u hu =>
      hgrown₁.holds (hs.holds_above hu)
    refine Builds.bind_from hgrown₁ (Builds.option_mapM (P := fun b b' s' => s'.Holds b' ∧
      Image s' (Substitution.forType d args).Sends b b') hs₁ _ fun b hb =>
        spec.substitute hs₁ (habove b (TypeInfo.base_mem_above hb)) hσ)
      fun base s₂ hgrown₂ hcompleted₂ hbase => ?_
    refine Builds.bind_from (hgrown₁.trans hgrown₂) (spec.substituteAll hgrown₂.wellFormed
      (hσ.of_extends hgrown₂.toExtends) fun u hu =>
        hgrown₂.holds (habove u (TypeInfo.interface_mem_above hu)))
      fun interfaces s₃ hgrown₃ hcompleted₃ hinterfaces => ?_
    have hcompleted := hcompleted₂.trans hgrown₂.wellFormed hgrown₃.toExtends hcompleted₃
    have hbase₃ : Option.Rel (fun b b' => s₃.Holds b' ∧
        Image s₃ (Substitution.forType d args).Sends b b') (s.info d).base base :=
      rel_imp_of_mem hbase fun b b' hb _ himage => ⟨hgrown₃.holds himage.1,
        himage.2.of_extends hgrown₂.wellFormed.toFormed hgrown₃.toExtends
          (hgrown₂.holds (habove b (TypeInfo.base_mem_above hb))) himage.1⟩
    refine ⟨(grown_complete hgrown₁ (hgrown₂.trans hgrown₃) hrow hdef fun u' hu' => ?_).1,
      completedBy_construct hgrown₁ (hgrown₂.trans hgrown₃) hcompleted hrow hheld
        (rel_imp_of_mem hbase₃ fun _ _ _ _ h => h.2) (hinterfaces.imp fun _ _ h => h.2.2), trivial⟩
    exact exists_mem_above (fun _ => exists_of_rel_some hbase₃)
      (hinterfaces.imp fun _ _ h => h.2) hu'

theorem builds_arrayOfWithin {e : TypeId} {rank : Nat} {s : Store} (hs : s.WellFormed)
    (he : s.Holds e) : Builds (arrayOfWithin (depth + 1) e rank) s fun u s' =>
      s'.Holds u ∧ s'.form u = .array e (max rank 1) := by
  refine Builds.and (Q := fun _ _ => True) ?_ (ensures_arrayOfWithin (constructionSpec depth) hs he)
  have hrank : 1 ≤ max rank 1 := Nat.le_max_right _ _
  rw [arrayOfWithin]
  refine Builds.get_bind ?_
  dsimp only
  split
  case h_1 => exact Builds.pure hs trivial
  case h_2 =>
    split
    case isTrue hone =>
      obtain ⟨-, hnone, harguments, -⟩ := TypeInfo.form_eq_named_iff.mp hs.form_enumerableOf
      refine (spec.construct hs (fun a ha => by rw [List.mem_singleton.mp ha]; exact he) ?_ ?_).bind
        hs fun u s' hgrown hu => ?_
      · exact TypeInfo.isDefinition_of_form hs.form_enumerableOf (List.cons_ne_nil _ _)
      · rw [harguments]
        rfl
      · refine (builds_array hgrown.wellFormed (hgrown.holds he) hrank ?_ fun v hv => ?_).imp
          fun _ _ _ _ => trivial
        · rw [if_pos hone]
          rfl
        · obtain rfl := List.mem_singleton.mp hv
          exact hu
    case isFalse hone =>
      refine (builds_array hs he hrank ?_ (by rintro u ⟨⟩)).imp fun _ _ _ _ => trivial
      rw [if_neg hone]
      rfl

end Step

theorem buildSpec (depth : Nat) : BuildSpec depth := by
  induction depth with
  | zero =>
    refine ⟨fun hs _ _ => ?_, fun hs _ _ _ => ?_, fun hs _ => ?_⟩
    · rw [substituteWithin]
      exact ⟨.refl hs, trivial⟩
    · rw [constructWithin]
      exact ⟨.refl hs, trivial⟩
    · rw [arrayOfWithin]
      exact ⟨.refl hs, trivial⟩
  | succ depth spec =>
    exact ⟨builds_substituteWithin spec, builds_constructWithin spec, builds_arrayOfWithin spec⟩

/-- **A substitution completes what it adds.** -/
theorem builds_substitute {σ : Substitution} {t : TypeId} {s : Store} (hs : s.WellFormed)
    (ht : s.Holds t) (hσ : σ.HeldBy s) :
    Builds (substitute σ t) s fun u s' => s'.Holds u ∧ Image s' σ.Sends t u :=
  Builds.get_bind ((buildSpec _).substitute hs ht hσ)

/-- **A construction that is asked for properly** completes what it adds. -/
theorem builds_construct {d : TypeId} {args : List TypeId} {s : Store} (hs : s.WellFormed)
    (hargs : ∀ a ∈ args, s.Holds a) (hdef : (s.info d).isDefinition)
    (hlen : (s.info d).arguments.length = args.length) :
    Builds (construct d args) s fun u s' => s'.IsConstructed d args u :=
  Builds.get_bind ((buildSpec _).construct hs hargs hdef hlen)

theorem builds_arrayOf {e : TypeId} {rank : Nat} {s : Store} (hs : s.WellFormed)
    (he : s.Holds e) :
    Builds (arrayOf e rank) s fun u s' => s'.Holds u ∧ s'.form u = .array e (max rank 1) :=
  Builds.get_bind ((buildSpec _).array hs he)

end CallSite
