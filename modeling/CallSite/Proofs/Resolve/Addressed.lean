import CallSite.Proofs.Call.Address
import CallSite.Proofs.Resolve.Answer

/-!
# What an answer says about the arguments

The sources of an answer were found for the winner as it was listed. What is done to the winner
afterwards replaces the types of its parameters and nothing else, so the call addresses the
parameters of the member of the answer from the same sources
(`CallSite.Resolver.addresses_of_tryResolve`). This holds of every store and every query, for it
does not depend on what the types are.
-/

namespace CallSite

theorem forall₂_of_mapM_eq_ok {ε α β : Type} {f : α → EStateM ε Store β} {R : α → β → Prop}
    (hf : ∀ a b s s', f a s = .ok b s' → R a b) {items : List α} {results : List β} {s s' : Store}
    (h : items.mapM f s = .ok results s') : List.Forall₂ R items results := by
  induction items generalizing results s s' with
  | nil =>
    obtain ⟨rfl, -⟩ := of_pure_eq_ok h
    exact .nil
  | cons a items ih =>
    rw [List.mapM_cons] at h
    obtain ⟨b, s₁, hb, h⟩ := exists_of_bind_eq_ok h
    obtain ⟨rest, s₂, hrest, h⟩ := exists_of_bind_eq_ok h
    obtain ⟨rfl, -⟩ := of_pure_eq_ok h
    exact .cons (hf a b s s₁ hb) (ih hrest)

namespace Member

variable {m m' : Member} {s s' : Store}

theorem alike_of_substituteParameter {σ : Substitution} {p p' : Parameter}
    (h : substituteParameter σ p s = .ok p' s') : p.Alike p' := by
  obtain ⟨t, s₁, -, h⟩ := exists_of_bind_eq_ok h
  obtain ⟨rfl, -⟩ := of_pure_eq_ok h
  rfl

/-- To make the generic parameters of a method again changes nothing else about it. -/
theorem eq_of_rebind {σ σ' : Substitution} (h : m.rebind σ s = .ok (m', σ') s') :
    m' = m ∨ ∃ token parameters, m' = m.withGenericMethod token parameters := by
  unfold rebind at h
  cases hopen : m.openMethod with
  | none =>
    rw [hopen] at h
    obtain ⟨heq, -⟩ := of_pure_eq_ok h
    cases heq
    exact .inl rfl
  | some token =>
    rw [hopen] at h
    dsimp only at h
    split at h
    · obtain ⟨heq, -⟩ := of_pure_eq_ok h
      cases heq
      exact .inl rfl
    obtain ⟨changes, s₁, -, h⟩ := exists_of_bind_eq_ok h
    split at h
    · obtain ⟨made, s₂, -, h⟩ := exists_of_bind_eq_ok h
      obtain ⟨heq, -⟩ := of_pure_eq_ok h
      cases heq
      exact .inr ⟨_, _, rfl⟩
    · obtain ⟨heq, -⟩ := of_pure_eq_ok h
      cases heq
      exact .inl rfl

/-- **A member under a substitution** has parameters that differ in their types only. -/
theorem alike_of_substitute {σ : Substitution} (h : m.substitute σ s = .ok m' s') :
    List.Forall₂ Parameter.Alike m.parameters m'.parameters := by
  obtain ⟨⟨rebound, τ⟩, s₁, hrebind, h⟩ := exists_of_bind_eq_ok h
  obtain ⟨declaring, s₂, -, h⟩ := exists_of_bind_eq_ok h
  obtain ⟨parameters, s₃, hparameters, h⟩ := exists_of_bind_eq_ok h
  obtain ⟨value, s₄, -, h⟩ := exists_of_bind_eq_ok h
  obtain ⟨arguments, s₅, -, h⟩ := exists_of_bind_eq_ok h
  obtain ⟨rfl, -⟩ := of_pure_eq_ok h
  have halike : List.Forall₂ Parameter.Alike rebound.parameters parameters :=
    forall₂_of_mapM_eq_ok (f := substituteParameter τ)
      (fun _ _ _ _ hp => alike_of_substituteParameter hp) hparameters
  obtain rfl | ⟨token, fresh, rfl⟩ := eq_of_rebind hrebind <;> exact halike

theorem alike_of_close {arguments : List TypeId} (h : m.close arguments s = .ok m' s') :
    List.Forall₂ Parameter.Alike m.parameters m'.parameters := by
  unfold close at h
  cases hopen : m.openMethod with
  | none =>
    rw [hopen] at h
    cases h
  | some token =>
  rw [hopen] at h
  dsimp only at h
  split at h
  · cases h
  obtain ⟨closed, s₁, hclosed, h⟩ := exists_of_bind_eq_ok h
  obtain ⟨rfl, -⟩ := of_pure_eq_ok h
  have halike := alike_of_substitute hclosed
  exact halike

end Member

/-- An accepted candidate is addressed by the call. -/
theorem addresses_of_evaluate {s : Store} {depth : Nat} {names : NameComparison} {query : Query}
    {member : Member} {typeSlots : Slots} {fit : Fit} {inferred : Inferred}
    (h : evaluate s depth names query member typeSlots = some (fit, inferred)) :
    query.arguments.Addresses names member.parameters fit.sources := by
  obtain ⟨i, called, valued, -, hcall, hvalue, rfl, -⟩ := exists_of_evaluate h
  have hsources : valued.1.sources = called.1.sources := by
    obtain ⟨-, rfl⟩ | ⟨_, _, _, -, -, -, rfl⟩ := exists_of_matchValue hvalue <;> rfl
  have haddresses := (fitParameters_eq_some_iff.mp (fitParameters_of_fitCall hcall)).1
  rwa [← hsources] at haddresses

namespace Resolver

variable {resolver : Resolver} {s s' : Store} {t : TypeId} {query : Query} {answer : Resolution}

/-- What is done to a winner leaves what the call addresses. -/
theorem addresses_of_finish {best : Accepted} {names : NameComparison} {arguments : Arguments}
    (h : finish t best s = .ok answer s')
    (hbest : arguments.Addresses names best.member.parameters best.fit.sources) :
    arguments.Addresses names answer.member.parameters answer.fit.sources := by
  obtain ⟨-, -, hfit, ⟨_, _, -, -, hclose⟩ | ⟨-, hmember, -⟩⟩ := finish_cases h
  · rw [hfit]
    exact hbest.of_alike (Member.alike_of_close hclose)
  · rw [hfit, hmember]
    exact hbest

/-- **An answer comes with the sources of its parameters**, however it was found. -/
theorem addresses_of_tryResolve (h : resolver.tryResolve t query s = .ok (some answer) s') :
    query.arguments.Addresses (resolver.options.comparison query.arguments)
      answer.member.parameters answer.fit.sources := by
  obtain ⟨u, arguments, best, s₁, s₂, s₃, hchoose, hfinish⟩ := exists_choose_of_tryResolve h
  obtain ⟨_, -, -, heval⟩ := exists_of_choose hchoose
  exact addresses_of_finish hfinish (addresses_of_evaluate heval)

end Resolver

end CallSite
