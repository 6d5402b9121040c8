import CallSite.Proofs.Type.Repeat
import CallSite.Resolve.Resolver

/-!
# What a resolver fails with

A resolver fails because a name is blank, because a type cannot be made, or because no member or
more than one accepts a call. It never fails for the host, which it does not ask
(`CallSite.Resolver.failsWith_tryResolve`). This holds of every store and every query, so it is
proved along the computation and not from what is known of the types.
-/

namespace CallSite

/-- A failure that does not come from the host. -/
def ResolveError.IsOwn : ResolveError → Prop
  | .invoke _ => False
  | _ => True

/-- Every failure of a computation has a property. -/
def FailsWith {ε α : Type} (P : ε → Prop) (x : EStateM ε Store α) : Prop :=
  ∀ s e s', x s = .error e s' → P e

namespace FailsWith

variable {ε α β : Type} {P : ε → Prop}

theorem pure (a : α) : FailsWith P (Pure.pure a : EStateM ε Store α) :=
  fun _ _ _ h => by cases h

theorem get : FailsWith P (MonadState.get : EStateM ε Store Store) :=
  fun _ _ _ h => by cases h

theorem throw {e : ε} (h : P e) : FailsWith P (MonadExcept.throw e : EStateM ε Store α) := by
  intro s e' s' heq
  cases heq
  exact h

theorem bind {x : EStateM ε Store α} {f : α → EStateM ε Store β} (hx : FailsWith P x)
    (hf : ∀ a, FailsWith P (f a)) : FailsWith P (x >>= f) := by
  intro s e s' h
  cases hrun : x s with
  | ok a s₁ =>
    rw [bind_apply_of_ok hrun] at h
    exact hf a s₁ e s' h
  | error e₁ s₁ =>
    rw [bind_apply_of_error hrun] at h
    cases h
    exact hx s e s' hrun

end FailsWith

theorem failsWith_ofTypes {α : Type} (x : TypeM α) : FailsWith ResolveError.IsOwn (ofTypes x) := by
  intro s e s' h
  rw [ofTypes_apply] at h
  cases hx : x s with
  | ok a s₁ =>
    rw [hx] at h
    cases h
  | error e₁ s₁ =>
    rw [hx] at h
    cases h
    trivial

namespace Resolver

variable (resolver : Resolver) (t : TypeId) (query : Query)

theorem failsWith_choose : FailsWith ResolveError.IsOwn (resolver.choose t query) := by
  refine .bind ?_ fun accepted => ?_
  · exact .bind .get fun _ => .bind (failsWith_ofTypes _) fun _ => .bind .get fun _ => .pure _
  · split
    · exact .pure _
    · exact .pure _
    · exact .bind .get fun _ => .throw trivial

theorem failsWith_finish (best : Accepted) : FailsWith ResolveError.IsOwn (finish t best) := by
  unfold finish
  dsimp only
  split
  · exact .bind (failsWith_ofTypes _) fun _ => .pure _
  · exact .bind (.pure _) fun _ => .pure _

theorem failsWith_resolveOn : FailsWith ResolveError.IsOwn (resolver.resolveOn t query) := by
  refine .bind (resolver.failsWith_choose t query) fun winner => ?_
  cases winner with
  | none => exact .pure _
  | some best => exact .bind (failsWith_finish t best) fun _ => .pure _

theorem failsWith_resolveOpen : FailsWith ResolveError.IsOwn (resolver.resolveOpen t query) := by
  refine .bind (resolver.failsWith_choose t query) fun winner => ?_
  cases winner with
  | none => exact .pure _
  | some best =>
    dsimp only
    split
    · exact .pure _
    · refine .bind (failsWith_ofTypes _) fun closed => .bind .get fun s => ?_
      split
      · exact .bind (failsWith_finish t best) fun _ => .pure _
      · exact resolver.failsWith_resolveOn _ _

theorem failsWith_queriedType : FailsWith ResolveError.IsOwn (resolver.queriedType t query) := by
  unfold queriedType
  split
  · exact .pure _
  · refine .bind .get fun s => ?_
    dsimp only
    split
    · exact .throw trivial
    split
    · exact .throw trivial
    split
    · exact .pure _
    · exact .bind (failsWith_ofTypes _) fun _ => .pure _

/-- **A resolver fails for reasons of its own.** -/
theorem failsWith_tryResolve : FailsWith ResolveError.IsOwn (resolver.tryResolve t query) := by
  unfold tryResolve
  split
  · exact .throw trivial
  · refine .bind (resolver.failsWith_queriedType t query) fun queried => ?_
    cases queried with
    | none => exact .pure _
    | some u =>
      refine .bind .get fun s => ?_
      split
      · exact resolver.failsWith_resolveOpen u query
      · exact resolver.failsWith_resolveOn u query

theorem failsWith_resolve : FailsWith ResolveError.IsOwn (resolver.resolve t query) := by
  refine .bind (resolver.failsWith_tryResolve t query) fun answer => ?_
  cases answer with
  | none => exact .bind .get fun _ => .throw trivial
  | some answer => exact .pure _

end Resolver

end CallSite
