import CallSite.Proofs.Match.Rule

/-!
# What a match adds to an inference

An accepted match fills slots and takes none back: `Inference.Extends` says that each slot that was
bound still holds its type, and `CallSite.matchWithin_extends` that this is so after every accepted
match.
-/

namespace CallSite

/-- **The same slots, with more of them bound**: owner and arity stay, and what is bound stays. -/
structure Slots.Extends (slots slots' : Slots) : Prop where
  /-- The owner stays. -/
  owner_eq : slots'.owner = slots.owner
  /-- The number of slots stays. -/
  arity_eq : slots'.arity = slots.arity
  /-- What is bound stays. -/
  get?_of_some : ∀ position t, slots.get? position = some t → slots'.get? position = some t

namespace Slots.Extends

variable {slots slots' slots'' : Slots}

theorem refl (slots : Slots) : slots.Extends slots :=
  ⟨rfl, rfl, fun _ _ h => h⟩

theorem trans (h : slots.Extends slots') (h' : slots'.Extends slots'') : slots.Extends slots'' :=
  ⟨h'.owner_eq.trans h.owner_eq, h'.arity_eq.trans h.arity_eq,
    fun k t hk => h'.get?_of_some k t (h.get?_of_some k t hk)⟩

theorem owns_eq (h : slots.Extends slots') (p : GenericParameter) :
    slots'.owns p = slots.owns p := by
  unfold owns
  rw [h.owner_eq, h.arity_eq]

/-- Binding an empty slot extends the slots. -/
theorem put {position : Nat} (t : TypeId) (h : slots.get? position = none) :
    slots.Extends (slots.put position t) := by
  refine ⟨rfl, slots.arity_put position t, fun k u hk => ?_⟩
  rw [Slots.get?_put_of_ne]
  · exact hk
  · rintro rfl
    rw [h] at hk
    cases hk

end Slots.Extends

/-- **More is known**: the slots of both kinds are extended. -/
structure Inference.Extends (i j : Inference) : Prop where
  /-- The slots of the queried type are extended. -/
  typeSlots : i.typeSlots.Extends j.typeSlots
  /-- The slots of the method are extended. -/
  methodSlots : i.methodSlots.Extends j.methodSlots

namespace Inference.Extends

variable {i j k : Inference}

theorem refl (i : Inference) : i.Extends i :=
  ⟨.refl _, .refl _⟩

theorem trans (h : i.Extends j) (h' : j.Extends k) : i.Extends k :=
  ⟨h.typeSlots.trans h'.typeSlots, h.methodSlots.trans h'.methodSlots⟩

theorem mapCost (h : i.Extends j) (change : MatchCost → MatchCost) :
    i.Extends (j.mapCost change) :=
  ⟨h.typeSlots, h.methodSlots⟩

theorem owns_eq (h : i.Extends j) (p : GenericParameter) : j.owns p = i.owns p := by
  unfold owns
  cases p.owner with
  | type => exact h.typeSlots.owns_eq p
  | method => exact h.methodSlots.owns_eq p

theorem bound?_of_some (h : i.Extends j) {p : GenericParameter} {t : TypeId}
    (hp : i.bound? p = some t) : j.bound? p = some t := by
  unfold bound? at *
  cases hpo : p.owner with
  | type =>
    rw [hpo] at hp
    exact h.typeSlots.get?_of_some _ _ hp
  | method =>
    rw [hpo] at hp
    exact h.methodSlots.get?_of_some _ _ hp

theorem put {p : GenericParameter} (t : TypeId) (h : i.bound? p = none) :
    i.Extends (i.put p t) := by
  unfold bound? at h
  unfold Inference.put
  cases hp : p.owner with
  | type =>
    rw [hp] at h
    exact ⟨.put t h, .refl _⟩
  | method =>
    rw [hp] at h
    exact ⟨.refl _, .put t h⟩

end Inference.Extends

/-! ### Matches only add -/

/-- A chain of steps that extend the inference extends it. -/
theorem Stepwise.extends {β : Type} {step : β → Inference → Inference → Prop} {items : List β}
    {i j : Inference} (h : Stepwise step items i j)
    (hstep : ∀ b x y, step b x y → x.Extends y) : i.Extends j :=
  h.keeps (fun b _ x y hxy hi => hi.trans (hstep b x y hxy)) (.refl i)

theorem ConstraintRule.extends {s : Store} {source c : TypeId} {i j : Inference}
    (h : ConstraintRule s (fun _ _ _ i j => i.Extends j) source c i j) : i.Extends j := by
  cases h with
  | interface _ h => exact h
  | ancestor _ _ h => exact h

/-- Checking one constraint after another extends the inference, if matches do. -/
theorem extends_of_check {s : Store} {M : MatchRelation} {source : TypeId} {cs : List TypeId}
    {i j : Inference} (hM : ∀ source v member i j, M source v member i j → i.Extends j)
    (h : Stepwise (ConstraintRule s M source) cs i j) : i.Extends j :=
  h.extends fun _ _ _ hc => (hc.mono hM).extends

/-- **Each rule extends the inference.** -/
theorem extends_of_rule {s : Store} {source member : TypeId} {v : Variance} {i j : Inference}
    (h : MatchRule s (fun _ _ _ i j => i.Extends j) source v member i j) : i.Extends j := by
  cases h with
  | foreign | confirmed | same => exact .refl _
  | converted _ _ _ _ h | inverted _ _ _ _ h | references _ _ h | reference _ _ h
  | elements _ _ h | widenToNullable _ _ _ _ _ h | narrowFromNullable _ _ _ h => exact h
  | bound _ _ hnone _ h =>
    have hj := (Inference.Extends.put source hnone).trans
      (h.extends fun _ _ _ hc => hc.extends)
    exact ⟨hj.typeSlots, hj.methodSlots⟩
  | arguments _ _ _ _ _ h => exact h.extends fun _ _ _ hc => hc
  | widenToInterface _ _ h | widenToBase _ _ _ h | narrowFromInterface _ _ _ _ h
  | narrowFromBase _ _ _ h => exact h.mapCost _

/-- **An accepted match extends the inference.** -/
theorem matchWithin_extends {s : Store} {depth : Nat} {source member : TypeId} {v : Variance}
    {i j : Inference} (h : matchWithin s depth source v member i = .accepted j) : i.Extends j :=
  matchWithin_induction (M := fun _ _ _ i j => i.Extends j)
    (fun _ _ _ _ _ h => extends_of_rule h) h

end CallSite
