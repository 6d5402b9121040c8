import CallSite.Match.Matcher

/-!
# Two matches in step

A match looks at the slots of the inference and never at its cost, to which it only adds. So two
matches that begin with the same slots do the same, as long as both are finished:

* `CallSite.matchWithin_lockstep` – costs that are related before stay related, at every depth
  that is great enough.
* `CallSite.matchWithin_of_le` – an outcome that is reached at some depth is the outcome at every
  greater depth.
* `CallSite.matchWithin_addCost` – a cost that was counted before is added to the result.
-/

namespace CallSite

/-! ### Attempts that agree -/

/-- **Two attempts agree**: where the first is finished the second has the same outcome, with a
related result. -/
inductive Attempt.Agree {α : Type} (R : α → α → Prop) : Attempt α → Attempt α → Prop
  /-- An unfinished attempt agrees with every other. -/
  | unfinished (b : Attempt α) : Agree R .unfinished b
  /-- Both are refused. -/
  | refused : Agree R .refused .refused
  /-- Both are accepted. -/
  | accepted {a b : α} : R a b → Agree R (.accepted a) (.accepted b)

namespace Attempt.Agree

variable {α β : Type} {R : α → α → Prop} {a b : Attempt α}

theorem bind {f g : α → Attempt α} (h : Agree R a b)
    (hfg : ∀ x y, R x y → Agree R (f x) (g y)) : Agree R (a.bind f) (b.bind g) := by
  cases h with
  | unfinished => exact .unfinished _
  | refused => exact .refused
  | accepted h => exact hfg _ _ h

theorem orElse {f g : Unit → Attempt α} (h : Agree R a b) (hfg : Agree R (f ()) (g ())) :
    Agree R (a.orElse f) (b.orElse g) := by
  cases h with
  | unfinished => exact .unfinished _
  | refused => exact hfg
  | accepted h => exact .accepted h

theorem map {f g : α → α} (h : Agree R a b) (hfg : ∀ x y, R x y → R (f x) (g y)) :
    Agree R (a.map f) (b.map g) :=
  h.bind fun x y hxy => .accepted (hfg x y hxy)

theorem all {step step' : β → α → Attempt α} (h : ∀ b x y, R x y → Agree R (step b x) (step' b y))
    (items : List β) {x y : α} (hxy : R x y) :
    Agree R (Attempt.all step items x) (Attempt.all step' items y) := by
  induction items generalizing x y with
  | nil => exact .accepted hxy
  | cons item items ih => exact (h item x y hxy).bind fun _ _ h' => ih h'

theorem any {step step' : β → α → Attempt α} (h : ∀ b x y, R x y → Agree R (step b x) (step' b y))
    (items : List β) {x y : α} (hxy : R x y) :
    Agree R (Attempt.any step items x) (Attempt.any step' items y) := by
  induction items with
  | nil => exact .refused
  | cons item items ih => exact (h item x y hxy).orElse ih

end Attempt.Agree

/-! ### Inferences with the same slots -/

/-- **The same slots**, and costs that are related. -/
structure Inference.Lockstep (C : MatchCost → MatchCost → Prop) (i i' : Inference) : Prop where
  /-- The slots of the queried type are the same. -/
  typeSlots : i'.typeSlots = i.typeSlots
  /-- The slots of the method are the same. -/
  methodSlots : i'.methodSlots = i.methodSlots
  /-- The costs are related. -/
  cost : C i.cost i'.cost

namespace Inference.Lockstep

variable {C : MatchCost → MatchCost → Prop} {i i' : Inference}

theorem owns_eq (h : Lockstep C i i') (p : GenericParameter) : i'.owns p = i.owns p := by
  unfold owns
  rw [h.typeSlots, h.methodSlots]

theorem bound?_eq (h : Lockstep C i i') (p : GenericParameter) : i'.bound? p = i.bound? p := by
  unfold bound?
  rw [h.typeSlots, h.methodSlots]

theorem put (h : Lockstep C i i') (p : GenericParameter) (t : TypeId) :
    Lockstep C (i.put p t) (i'.put p t) := by
  unfold Inference.put
  cases p.owner with
  | type => exact ⟨by rw [h.typeSlots], h.methodSlots, h.cost⟩
  | method => exact ⟨h.typeSlots, by rw [h.methodSlots], h.cost⟩

/-- With equal costs nothing differs. -/
theorem eq (h : Lockstep Eq i i') : i' = i := by
  obtain ⟨ht, hm, hc⟩ := h
  cases i
  cases i'
  simp only at ht hm hc
  rw [ht, hm, hc]

/-- The slots of one inference with the cost of another. -/
theorem restore {j j' : Inference} (hj : Lockstep C j j') (h : Lockstep C i i') :
    Lockstep C { j with cost := i.cost } { j' with cost := i'.cost } :=
  ⟨hj.typeSlots, hj.methodSlots, h.cost⟩

end Inference.Lockstep

/-! ### One level -/

section Level

variable {s : Store} {C : MatchCost → MatchCost → Prop} {r r' : Matcher}

open Attempt Inference

/-- Two ways to match agree on inferences with the same slots. -/
def Matcher.Agree (C : MatchCost → MatchCost → Prop) (r r' : Matcher) : Prop :=
  ∀ source v member i i', Lockstep C i i' →
    Attempt.Agree (Lockstep C) (r source v member i) (r' source v member i')

variable (hC : ∀ a b c : MatchCost, C a b → C (a + c) (b + c)) (hr : r.Agree C r')
variable {source member : TypeId} {i i' : Inference} (h : Lockstep C i i')

include hC in
/-- A change that adds a fixed cost keeps the step. -/
theorem Inference.Lockstep.mapCost (change : MatchCost → MatchCost)
    (hadd : ∀ c, change c = c + change {}) (h : Lockstep C i i') :
    Lockstep C (i.mapCost change) (i'.mapCost change) := by
  refine ⟨h.typeSlots, h.methodSlots, ?_⟩
  change C (change i.cost) (change i'.cost)
  rw [hadd i.cost, hadd i'.cost]
  exact hC _ _ _ h.cost

include hr h

theorem matchConstraint_lockstep (c : TypeId) :
    Agree (Lockstep C) (matchConstraint s r source c i) (matchConstraint s r' source c i') := by
  unfold matchConstraint
  split
  · exact hr _ _ _ _ _ h
  · exact Agree.any (fun a x y hxy => hr a .invariant c x y hxy) _ h

theorem matchConstraints_lockstep (constraints : List TypeId) :
    Agree (Lockstep C) (matchConstraints s r source constraints i)
      (matchConstraints s r' source constraints i') :=
  (Agree.all (fun c _ _ hxy => matchConstraint_lockstep hr hxy c) constraints h).map
    fun _ _ hxy => hxy.restore h

include hC

theorem matchParameter_lockstep (v : Variance) (p : GenericParameter) :
    Agree (Lockstep C) (matchParameter s r source v member p i)
      (matchParameter s r' source v member p i') := by
  unfold matchParameter
  rw [h.owns_eq, h.bound?_eq]
  split
  · split
    · split
      · exact .accepted h
      · exact (hr _ _ _ _ _ h).orElse (hr _ _ _ _ _ h)
    · split
      · exact (matchConstraints_lockstep hr (h.put p source) p.constraints).map fun _ _ hxy =>
          hxy.mapCost hC _ (MatchCost.addConstraints_eq s p)
      · exact .refused
  · unfold Attempt.guard
    split
    · exact .accepted h
    · exact .refused

omit hC in
theorem matchElements_lockstep :
    Agree (Lockstep C) (matchElements s r source member i)
      (matchElements s r' source member i') := by
  unfold matchElements
  split
  · split
    · exact hr _ _ _ _ _ h
    · exact .refused
  · exact .refused

omit hC in
theorem matchArguments_lockstep :
    Agree (Lockstep C) (matchArguments s r source member i)
      (matchArguments s r' source member i') := by
  unfold matchArguments
  split
  · dsimp only
    split
    · exact Agree.all (fun pair x y hxy => hr pair.1 .invariant pair.2 x y hxy) _ h
    · exact .refused
  · exact .refused

theorem widen_lockstep :
    Agree (Lockstep C) (widen s r source member i) (widen s r' source member i') := by
  refine Agree.orElse ?_ (Agree.orElse ?_ ?_)
  · unfold widenToInterface
    split
    · exact Agree.any (fun f x y hxy => (hr f .invariant member x y hxy).map fun _ _ h' =>
        h'.mapCost hC (MatchCost.addInterfaceStep s f) (MatchCost.addInterfaceStep_eq s f)) _ h
    · exact .refused
  · unfold widenToNullable
    split
    · split
      · exact hr _ _ _ _ _ h
      · exact .refused
    · exact .refused
  · unfold widenToBase
    split
    · exact (hr _ _ _ _ _ h).map fun _ _ h' => h'.mapCost hC _ (MatchCost.addBaseStep_eq s _)
    · exact .refused

theorem narrow_lockstep :
    Agree (Lockstep C) (narrow s r source member i) (narrow s r' source member i') := by
  refine Agree.orElse ?_ (Agree.orElse ?_ ?_)
  · unfold narrowFromInterface
    split
    · exact Agree.any (fun f x y hxy => (hr source .invariant f x y hxy).map fun _ _ h' =>
        h'.mapCost hC (MatchCost.addInterfaceStep s f) (MatchCost.addInterfaceStep_eq s f)) _ h
    · exact .refused
  · unfold narrowFromNullable
    split
    · split
      · exact hr _ _ _ _ _ h
      · exact .refused
    · exact .refused
  · unfold narrowFromBase
    split
    · exact (hr _ _ _ _ _ h).map fun _ _ h' => h'.mapCost hC _ (MatchCost.addBaseStep_eq s _)
    · exact .refused

/-- **One level of a match keeps two matches in step.** -/
theorem matchStep_lockstep (v : Variance) :
    Agree (Lockstep C) (matchStep s r source v member i) (matchStep s r' source v member i') := by
  unfold matchStep
  split
  · exact matchParameter_lockstep hC hr h v _
  · split
    · exact .accepted h
    · split
      · exact hr _ _ _ _ _ h
      · exact hr _ _ _ _ _ h
  · split
    · exact .accepted h
    · refine (matchElements_lockstep hr h).orElse ((matchArguments_lockstep hr h).orElse ?_)
      cases v with
      | invariant => exact .refused
      | contravariant => exact widen_lockstep hC hr h
      | covariant => exact narrow_lockstep hC hr h

end Level

/-! ### All depths -/

/-- **A deeper match agrees**, with costs that stay related. -/
theorem matchWithin_lockstep {s : Store} {C : MatchCost → MatchCost → Prop}
    (hC : ∀ a b c : MatchCost, C a b → C (a + c) (b + c)) {depth depth' : Nat}
    (hle : depth ≤ depth') : (matchWithin s depth).Agree C (matchWithin s depth') := by
  induction depth generalizing depth' with
  | zero => exact fun _ _ _ _ _ _ => .unfinished _
  | succ depth ih =>
    obtain ⟨depth', rfl⟩ : ∃ d, depth' = d + 1 := ⟨depth' - 1, by omega⟩
    exact fun _ v _ _ _ h => matchStep_lockstep hC (ih (by omega)) h v

/-- **More depth changes no outcome.** -/
theorem matchWithin_of_le {s : Store} {depth depth' : Nat} (hle : depth ≤ depth')
    {source member : TypeId} {v : Variance} {i : Inference}
    (h : matchWithin s depth source v member i ≠ .unfinished) :
    matchWithin s depth' source v member i = matchWithin s depth source v member i := by
  have hagree := matchWithin_lockstep (s := s) (C := Eq) (fun _ _ _ he => by rw [he]) hle
    source v member i i ⟨rfl, rfl, rfl⟩
  cases ha : matchWithin s depth source v member i with
  | unfinished => exact absurd ha h
  | refused =>
    rw [ha] at hagree
    generalize matchWithin s depth' source v member i = b at hagree
    cases hagree
    rfl
  | accepted j =>
    rw [ha] at hagree
    generalize matchWithin s depth' source v member i = b at hagree
    obtain _ | _ | hj := hagree
    exact congrArg Attempt.accepted hj.eq

namespace Inference

/-- Add to what was counted. -/
def addCost (cost : MatchCost) (i : Inference) : Inference :=
  i.mapCost (cost + ·)

end Inference

/-- **A match does not depend on what was counted before**: it ends in the same way, with that
cost added to the result. -/
theorem matchWithin_addCost {s : Store} {depth : Nat} {source member : TypeId} {v : Variance}
    {i : Inference} (cost : MatchCost) :
    matchWithin s depth source v member (i.addCost cost) =
      (matchWithin s depth source v member i).map (Inference.addCost cost) := by
  have hadd : ∀ a b c : MatchCost, b = cost + a → b + c = cost + (a + c) := fun a b c h => by
    rw [h, MatchCost.add_assoc]
  have hagree := matchWithin_lockstep (s := s) (C := fun a b => b = cost + a) hadd
    (Nat.le_refl depth) source v member i (i.addCost cost) ⟨rfl, rfl, rfl⟩
  have hback := matchWithin_lockstep (s := s) (C := fun a b => a = cost + b)
    (fun a b c h => hadd b a c h) (Nat.le_refl depth) source v member (i.addCost cost) i
    ⟨rfl, rfl, rfl⟩
  generalize matchWithin s depth source v member (i.addCost cost) = b at hagree hback
  generalize matchWithin s depth source v member i = a at hagree hback
  cases hagree with
  | refused => rfl
  | @accepted j j' hj =>
    obtain ⟨ht, hm, hc⟩ := hj
    refine congrArg Attempt.accepted ?_
    cases j'
    simp only at ht hm hc
    rw [ht, hm, hc]
    rfl
  | unfinished =>
    cases hback
    rfl

end CallSite
