import CallSite.Proofs.Match.Growth
import CallSite.Proofs.Type.Hierarchy

/-!
# What is bound comes from the source

A match binds its source, or a type that it steps to from there: something above the source, an
element or an argument of it. So a property of types that is handed on by these steps holds of
whatever is bound, if it holds of the source and of what was bound before.

* `Store.Inherited` – a property that is handed on.
* `matchWithin_inherits` – it holds of all bindings of an accepted match.
-/

namespace CallSite

/-- **A property is handed on** by the steps that a match takes from its source. -/
structure Store.Inherited (s : Store) (P : TypeId → Prop) : Prop where
  /-- To bases and interfaces. -/
  above : ∀ {t u}, u ∈ (s.info t).above → P t → P u
  /-- To the root of all classes, where the step to the base leads there. -/
  root : ∀ {t}, baseStep s t = some Core.object → P t → P Core.object
  /-- To the elements of arrays. -/
  element : ∀ {t e rank}, (s.info t).shape = .arrayType e rank → P t → P e
  /-- To what a reference refers to. -/
  target : ∀ {t e}, (s.info t).shape = .byRefType e → P t → P e
  /-- To arguments. -/
  argument : ∀ {t a}, a ∈ (s.info t).arguments → P t → P a

namespace Store.Inherited

variable {s : Store} {P : TypeId → Prop} {t u : TypeId}

theorem upward (hP : s.Inherited P) (h : s.Upward t u) (ht : P t) : P u := by
  induction h with
  | refl => exact ht
  | tail _ hu ih => exact hP.above hu ih

/-- The step to a base leads up, or to the root. -/
theorem baseStep (hP : s.Inherited P) (h : baseStep s t = some u) (ht : P t) : P u := by
  have hstep := h
  unfold CallSite.baseStep at h
  split at h
  case h_1 b hb =>
    cases h
    exact hP.above (TypeInfo.base_mem_above hb) ht
  case h_2 =>
    split at h
    · cases h
      exact hP.root hstep ht
    · cases h

end Store.Inherited

/-- Everything that is bound has a property. -/
def Inference.All (i : Inference) (P : TypeId → Prop) : Prop :=
  ∀ p b, i.owns p → i.bound? p = some b → P b

namespace Inference.All

variable {i : Inference} {P : TypeId → Prop}

theorem imp (h : i.All P) {Q : TypeId → Prop} (himp : ∀ b, P b → Q b) : i.All Q :=
  fun p b hp hb => himp b (h p b hp hb)

theorem put (h : i.All P) {p : GenericParameter} {t : TypeId} (ht : P t) (hp : i.owns p) :
    (i.put p t).All P := by
  intro q b hq hb
  rw [Inference.owns_put] at hq
  rcases Inference.bound?_of_put hp hq hb with hb | ⟨rfl, -⟩
  · exact h q b hq hb
  · exact ht

/-- Before anything is bound nothing has to be shown. -/
theorem of_unbound (htype : ∀ k, i.typeSlots.get? k = none)
    (hmethod : ∀ k, i.methodSlots.get? k = none) : i.All P := by
  intro p b _ hb
  unfold Inference.bound? at hb
  cases hp : p.owner with
  | type =>
    rw [hp] at hb
    dsimp only at hb
    rw [htype] at hb
    cases hb
  | method =>
    rw [hp] at hb
    dsimp only at hb
    rw [hmethod] at hb
    cases hb

/-- What was counted does not matter. -/
theorem of_slots_eq {j : Inference} (h : i.All P) (htype : j.typeSlots = i.typeSlots)
    (hmethod : j.methodSlots = i.methodSlots) : j.All P := by
  cases i
  cases j
  cases htype
  cases hmethod
  exact h

end Inference.All

/-! ### Every rule hands on -/

/-- **What is bound inherits a property** from the source and from what was bound before. -/
def Inherits (P : TypeId → Prop) : MatchRelation := fun source _ _ i j =>
  P source → i.All P → j.All P

section Rules

variable {s : Store} {P : TypeId → Prop} {source member : TypeId} {v : Variance} {i j : Inference}

theorem inherits_of_constraintRule (hP : s.Inherited P) {c : TypeId}
    (h : ConstraintRule s (Inherits P) source c i j) (hsource : P source) (hi : i.All P) :
    j.All P := by
  cases h with
  | interface _ h => exact h hsource hi
  | ancestor _ ha h => exact h (hP.upward (Store.upward_of_mem_ancestors ha) hsource) hi

/-- **Each rule hands on.** -/
theorem inherits_of_rule (hP : s.Inherited P)
    (h : MatchRule s (Inherits P) source v member i j) : Inherits P source v member i j := by
  intro hsource hi
  cases h with
  | foreign | confirmed | same => exact hi
  | converted _ _ _ _ h | inverted _ _ _ _ h | reference _ _ h => exact h hsource hi
  | bound _ ho _ _ h =>
    have hj := h.keeps (fun _ _ _ _ hc hx => inherits_of_constraintRule hP hc hsource hx)
      (hi.put hsource ho)
    exact hj.of_slots_eq rfl rfl
  | references hbyRef _ h => exact h (hP.target hbyRef hsource) hi
  | elements harray _ h => exact h (hP.element harray hsource) hi
  | arguments _ _ _ _ _ h =>
    exact h.keeps (fun pair hmem _ _ hpair hx =>
      hpair (hP.argument (List.of_mem_zip hmem).1 hsource) hx) hi
  | widenToInterface _ hf h =>
    exact (h (hP.upward (Store.upward_of_mem_allInterfaces hf) hsource) hi).of_slots_eq rfl rfl
  | widenToNullable _ _ _ _ _ h => exact h hsource hi
  | widenToBase _ _ hb h => exact (h (hP.baseStep hb hsource) hi).of_slots_eq rfl rfl
  | narrowFromInterface _ _ _ _ h => exact (h hsource hi).of_slots_eq rfl rfl
  | narrowFromNullable hu _ _ h =>
    exact h (hP.argument (Store.nullableUnderlying_mem hu) hsource) hi
  | narrowFromBase _ _ _ h => exact (h hsource hi).of_slots_eq rfl rfl

/-- **Every accepted match hands on** a property of its source to what it binds. -/
theorem matchWithin_inherits (hP : s.Inherited P) {depth : Nat}
    (h : matchWithin s depth source v member i = .accepted j) : Inherits P source v member i j :=
  matchWithin_induction (fun _ _ _ _ _ h => inherits_of_rule hP h) h

end Rules

end CallSite
