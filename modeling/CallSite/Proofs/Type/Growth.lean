import CallSite.Proofs.List
import CallSite.Proofs.Type.WellFormed

/-!
# Computations that let a store grow

A computation on types may append rows, and it may fail after it has appended some. What it never
does is to change a row that was there before. `Store.Grown` says this of two stores, and `Ensures`
says it of a computation, together with what is known of the result. There is one rule for each way
to put computations together.
-/

namespace CallSite

/-- **A store that grows well**: it holds what it held, it is well formed, and it is scoped if it
was so before. -/
structure Store.Grown (s s' : Store) : Prop extends s.Extends s' where
  /-- It is well formed. -/
  wellFormed : s'.WellFormed
  /-- It stays scoped. -/
  keeps_scoped : s.Scoped → s'.Scoped

namespace Store.Grown

variable {s s' s'' : Store}

theorem refl (h : s.WellFormed) : s.Grown s :=
  ⟨.refl s, h, id⟩

theorem trans (h : s.Grown s') (h' : s'.Grown s'') : s.Grown s'' :=
  ⟨h.toExtends.trans h'.toExtends, h'.wellFormed, h'.keeps_scoped ∘ h.keeps_scoped⟩

end Store.Grown

theorem Store.Grown.of_types_eq {s s' : Store} (hs : s.WellFormed) (htypes : s'.types = s.types)
    (hrebound : ∀ {entry}, entry ∈ s'.rebound → ∀ t ∈ entry.2.2, s.Holds t) : s.Grown s' :=
  ⟨Store.extends_of_types_eq htypes, hs.of_types_eq htypes hrebound,
    fun hsc => hsc.of_types_eq htypes⟩

/-- A row that was not there at first may be changed. -/
theorem Store.Grown.edit {s₀ s : Store} (h : s₀.Grown s) {t : TypeId}
    {change : TypeInfo → TypeInfo} (hnew : ¬ s₀.Holds t) (hs : (s.edit t change).WellFormed)
    (hscoped : s.Scoped → (s.edit t change).Scoped) : s₀.Grown (s.edit t change) := by
  refine ⟨⟨?_, fun {u} hu => ?_⟩, hs, hscoped ∘ h.keeps_scoped⟩
  · rw [Store.size_edit]
    exact h.size_le
  · have hne : t ≠ u := by
      rintro rfl
      exact hnew hu
    rw [Store.info_edit_of_ne _ _ hne]
    exact h.info_eq hu

/-! ### Running a computation -/

theorem get_bind_apply {ε β : Type} (f : Store → EStateM ε Store β) (s : Store) :
    (get >>= f) s = f s s := rfl

theorem bind_apply_of_ok {ε α β : Type} {x : EStateM ε Store α} {s s' : Store} {a : α}
    (h : x s = .ok a s') (f : α → EStateM ε Store β) : (x >>= f) s = f a s' := by
  change EStateM.bind x f s = _
  unfold EStateM.bind
  rw [h]

theorem map_apply_of_ok {ε α β : Type} {x : EStateM ε Store α} {s s' : Store} {a : α}
    (h : x s = .ok a s') (f : α → β) : (f <$> x) s = .ok (f a) s' := by
  rw [map_eq_pure_bind, bind_apply_of_ok h]
  rfl

theorem bind_apply_of_error {ε α β : Type} {x : EStateM ε Store α} {s s' : Store} {e : ε}
    (h : x s = .error e s') (f : α → EStateM ε Store β) : (x >>= f) s = .error e s' := by
  change EStateM.bind x f s = _
  unfold EStateM.bind
  rw [h]

/-- A computation that succeeds is made of two that do. -/
theorem exists_of_bind_eq_ok {ε α β : Type} {x : EStateM ε Store α} {f : α → EStateM ε Store β}
    {s s' : Store} {b : β} (h : (x >>= f) s = .ok b s') :
    ∃ a s₁, x s = .ok a s₁ ∧ f a s₁ = .ok b s' := by
  cases hx : x s with
  | ok a s₁ =>
    rw [bind_apply_of_ok hx] at h
    exact ⟨a, s₁, rfl, h⟩
  | error e s₁ =>
    rw [bind_apply_of_error hx] at h
    cases h

theorem of_pure_eq_ok {ε α : Type} {s s' : Store} {a b : α}
    (h : (Pure.pure a : EStateM ε Store α) s = .ok b s') : a = b ∧ s = s' :=
  EStateM.Result.ok.inj h

theorem mapM_of_fixed {ε α β : Type} {f : α → EStateM ε Store β} {s : Store} {items : List α}
    {results : List β} (h : List.Forall₂ (fun a b => f a s = .ok b s) items results) :
    items.mapM f s = .ok results s := by
  induction h with
  | nil => rfl
  | cons hab _ ih =>
    rw [List.mapM_cons, bind_apply_of_ok hab, bind_apply_of_ok ih]
    rfl

/-- A computation for what may be there that leaves the store alone. -/
theorem option_mapM_of_fixed {ε α β : Type} {f : α → EStateM ε Store β} {s : Store} {o : Option α}
    {o' : Option β} (h : Option.Rel (fun a b => f a s = .ok b s) o o') :
    o.mapM f s = .ok o' s := by
  cases h with
  | some h => exact bind_apply_of_ok h _
  | none => rfl

/-! ### Computations on a store -/

/-- **A computation lets a store grow**, and what it returns has a property. The computation may
begin after the store has grown already. -/
def EnsuresFrom {ε α : Type} (s₀ : Store) (x : EStateM ε Store α) (s : Store)
    (Q : α → Store → Prop) : Prop :=
  match x s with
  | .ok a s' => s₀.Grown s' ∧ Q a s'
  | .error _ s' => s₀.Grown s'

/-- A computation lets the store grow that it begins with. -/
abbrev Ensures {ε α : Type} (x : EStateM ε Store α) (s : Store) (Q : α → Store → Prop) : Prop :=
  EnsuresFrom s x s Q

/-- What a computation does is seen by its run, which may be that of another one from another
store. -/
theorem EnsuresFrom.of_run_eq {ε α : Type} {s₀ s s₁ : Store} {x y : EStateM ε Store α}
    {Q : α → Store → Prop} (hrun : x s = y s₁) (h : EnsuresFrom s₀ y s₁ Q) :
    EnsuresFrom s₀ x s Q := by
  rwa [EnsuresFrom, hrun]

theorem EnsuresFrom.of_ok {ε α : Type} {s₀ s : Store} {x : EStateM ε Store α}
    {Q : α → Store → Prop} (h : EnsuresFrom s₀ x s Q) {a : α} {s' : Store} (hx : x s = .ok a s') :
    s₀.Grown s' ∧ Q a s' := by
  rw [EnsuresFrom, hx] at h
  exact h

theorem EnsuresFrom.of_error {ε α : Type} {s₀ s : Store} {x : EStateM ε Store α}
    {Q : α → Store → Prop} (h : EnsuresFrom s₀ x s Q) {e : ε} {s' : Store}
    (hx : x s = .error e s') : s₀.Grown s' := by
  rw [EnsuresFrom, hx] at h
  exact h

/-- A computation may begin after a store has grown. -/
theorem EnsuresFrom.of_ensures {ε α : Type} {s₀ s : Store} {x : EStateM ε Store α}
    {Q : α → Store → Prop} (h₀ : s₀.Grown s) (h : Ensures x s Q) : EnsuresFrom s₀ x s Q := by
  unfold EnsuresFrom
  cases hx : x s with
  | ok a s' => exact (EnsuresFrom.of_ok h hx).imp_left h₀.trans
  | error e s' => exact h₀.trans (EnsuresFrom.of_error h hx)

namespace Ensures

variable {ε α β : Type} {x : EStateM ε Store α} {s : Store} {Q : α → Store → Prop}

theorem of_ok (h : Ensures x s Q) {a : α} {s' : Store} (hx : x s = .ok a s') :
    s.Grown s' ∧ Q a s' :=
  EnsuresFrom.of_ok h hx

theorem of_run_eq {y : EStateM ε Store α} (hrun : x s = y s) (h : Ensures y s Q) : Ensures x s Q :=
  EnsuresFrom.of_run_eq hrun h

theorem pure (hs : s.WellFormed) {a : α} (h : Q a s) :
    Ensures (Pure.pure a : EStateM ε Store α) s Q :=
  ⟨.refl hs, h⟩

theorem throw (hs : s.WellFormed) (e : ε) : Ensures (throw e : EStateM ε Store α) s Q :=
  Store.Grown.refl hs

theorem imp (h : Ensures x s Q) {Q' : α → Store → Prop}
    (himp : ∀ a s', s.Grown s' → Q a s' → Q' a s') : Ensures x s Q' := by
  unfold Ensures EnsuresFrom
  cases hx : x s with
  | ok a s' => exact ⟨(h.of_ok hx).1, himp a s' (h.of_ok hx).1 (h.of_ok hx).2⟩
  | error e s' => exact EnsuresFrom.of_error h hx

/-- One computation after another, where the store has grown before. -/
theorem bind_from {s₀ : Store} {f : α → EStateM ε Store β} {Q' : β → Store → Prop}
    (h₀ : s₀.Grown s) (h : Ensures x s Q)
    (hf : ∀ a s', s.Grown s' → Q a s' → EnsuresFrom s₀ (f a) s' Q') :
    EnsuresFrom s₀ (x >>= f) s Q' := by
  cases hx : x s with
  | ok a s' =>
    exact .of_run_eq (bind_apply_of_ok hx f) (hf a s' (h.of_ok hx).1 (h.of_ok hx).2)
  | error e s' =>
    rw [EnsuresFrom, bind_apply_of_error hx]
    exact h₀.trans (EnsuresFrom.of_error h hx)

/-- **One computation after another.** -/
theorem bind (h : Ensures x s Q) (hs : s.WellFormed) {f : α → EStateM ε Store β}
    {Q' : β → Store → Prop} (hf : ∀ a s', s.Grown s' → Q a s' → Ensures (f a) s' Q') :
    Ensures (x >>= f) s Q' :=
  bind_from (.refl hs) h fun a s' hgrown ha => .of_ensures hgrown (hf a s' hgrown ha)

/-- Reading the store changes nothing. -/
theorem get_bind {f : Store → EStateM ε Store β} {Q' : β → Store → Prop}
    (h : Ensures (f s) s Q') : Ensures (get >>= f) s Q' := h

/-- A computation for each item of a list. What is known of a result has to persist while the
store grows. -/
theorem mapM {f : α → EStateM ε Store β} {P : α → β → Store → Prop} (hs : s.WellFormed)
    (hmono : ∀ a b s' s'', s'.Grown s'' → s'.WellFormed → P a b s' → P a b s'') (items : List α)
    (hf : ∀ a ∈ items, ∀ s', s.Grown s' → Ensures (f a) s' (P a)) :
    Ensures (items.mapM f) s fun bs s' => List.Forall₂ (P · · s') items bs := by
  induction items generalizing s with
  | nil => exact .pure hs .nil
  | cons a items ih =>
    rw [List.mapM_cons]
    refine (hf a List.mem_cons_self s (.refl hs)).bind hs fun b s' hgrown hb => ?_
    refine (ih hgrown.wellFormed fun a' ha' s'' hgrown' =>
      hf a' (List.mem_cons_of_mem _ ha') s'' (hgrown.trans hgrown')).bind hgrown.wellFormed
      fun bs s'' hgrown' hbs => ?_
    exact .pure hgrown'.wellFormed (.cons (hmono _ _ _ _ hgrown' hgrown.wellFormed hb) hbs)

/-- A computation for what may be there. -/
theorem option_mapM {f : α → EStateM ε Store β} {P : α → β → Store → Prop} (hs : s.WellFormed)
    (o : Option α) (hf : ∀ a, o = some a → Ensures (f a) s (P a)) :
    Ensures (o.mapM f) s fun o' s' => ∀ b, o' = some b → ∃ a, o = some a ∧ P a b s' := by
  cases o with
  | none =>
    refine .pure hs fun b hb => ?_
    cases hb
  | some a =>
    refine (hf a rfl).bind hs fun b s' hgrown hb => ?_
    refine .pure hgrown.wellFormed fun b' hb' => ?_
    cases hb'
    exact ⟨a, rfl, hb⟩

end Ensures

end CallSite
