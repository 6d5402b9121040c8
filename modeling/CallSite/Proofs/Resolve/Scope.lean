import CallSite.Proofs.Access.Flags
import CallSite.Proofs.Resolve.Addressed

/-!
# Which scope an answer is from

A mask without the members of instances lets only static ones through, and nothing that is done to a
member on its way to the answer changes whether it is static: not the arguments of the type that
declares it, not those of the method. So a query that never sees the members of instances is
answered with a static member, also where it is answered once more on the type that its arguments
were inferred for (`CallSite.Resolver.isStatic_of_tryResolve`).

-/

namespace CallSite

namespace Member

variable {m m' : Member} {s s' : Store}

theorem isStatic_of_substitute {σ : Substitution} (h : m.substitute σ s = .ok m' s') :
    m'.isStatic = m.isStatic := by
  obtain ⟨⟨rebound, τ⟩, s₁, hrebind, h⟩ := exists_of_bind_eq_ok h
  obtain ⟨declaring, s₂, -, h⟩ := exists_of_bind_eq_ok h
  obtain ⟨parameters, s₃, -, h⟩ := exists_of_bind_eq_ok h
  obtain ⟨value, s₄, -, h⟩ := exists_of_bind_eq_ok h
  obtain ⟨arguments, s₅, -, h⟩ := exists_of_bind_eq_ok h
  obtain ⟨rfl, -⟩ := of_pure_eq_ok h
  obtain rfl | ⟨token, fresh, rfl⟩ := eq_of_rebind hrebind <;> rfl

theorem isStatic_of_close {arguments : List TypeId} (h : m.close arguments s = .ok m' s') :
    m'.isStatic = m.isStatic := by
  unfold close at h
  cases hopen : m.openMethod with
  | none =>
    rw [hopen] at h
    cases h
  | some token =>
  rw [hopen] at h
  dsimp only at h
  split at h
  · cases h
  obtain ⟨closed, s₁, hclosed, h⟩ := exists_of_bind_eq_ok h
  obtain ⟨rfl, -⟩ := of_pure_eq_ok h
  have hstatic := isStatic_of_substitute hclosed
  exact hstatic

end Member

/-! ### Masks without the members of instances -/

/-- A mask sees no member of an instance. -/
def Access.StaticOnly (access : Access) : Prop :=
  access.contains Access.instanceMembers = false

instance (access : Access) : Decidable access.StaticOnly :=
  inferInstanceAs (Decidable (access.contains Access.instanceMembers = false))

/-- What such a mask lets through is static. -/
theorem Access.StaticOnly.isStatic {access : Access} (h : access.StaticOnly)
    {visibility : Visibility} {isStatic : Bool} (hadmits : access.admits visibility isStatic) :
    isStatic := by
  unfold admits at hadmits
  cases isStatic with
  | true => rfl
  | false =>
    rw [if_neg Bool.false_ne_true, h, Bool.and_false] at hadmits
    exact hadmits

/-- **The options add no members of instances** to a mask from which they were taken. -/
theorem staticOnly_effectiveAccess (options : Options) (mask : Access) :
    (options.effectiveAccess (some (mask.difference Access.instanceMembers))).StaticOnly := by
  have hflag : Access.instanceMembers.IsFlag := by decide
  have hunion : ∀ (access : Access) (condition : Bool) (other : Access), access.StaticOnly →
      other.StaticOnly → (access.unionIf condition other).StaticOnly := by
    intro access condition other haccess hother
    cases condition with
    | true => exact (hflag.contains_union access other).trans (by rw [haccess, hother]; rfl)
    | false => exact haccess
  have hignore : Access.ignoreCase.StaticOnly := by decide +kernel
  have htop : Access.topHierarchy.StaticOnly := by decide +kernel
  exact hunion _ _ _ (hunion _ _ _ (hflag.contains_difference mask) hignore) htop

/-! ### Candidates and answers -/

/-- **A candidate passes** as it is listed, with the arguments of its declaring type in place. -/
theorem isCandidate_of_candidates {registry : Registry} {access : Access} {query : Query}
    {t : TypeId} {s s' : Store} {found : List (Member × Nat)}
    (h : candidates registry access query t s = .ok found s') {candidate : Member × Nat}
    (hmem : candidate ∈ found) : isCandidate access query.name candidate.2 candidate.1 := by
  unfold candidates at h
  rw [get_bind_apply] at h
  obtain ⟨listed, s₁, hlisted, h⟩ := exists_of_bind_eq_ok h
  obtain ⟨rfl, -⟩ := of_pure_eq_ok h
  have hpasses : List.Forall₂ (fun (_ : TypeId × Nat) (members : List (Member × Nat)) =>
      ∀ c ∈ members, isCandidate access query.name c.2 c.1)
      (searchedTypes s access query.kind t).zipIdx listed := by
    refine forall₂_of_mapM_eq_ok (fun item members _ _ hitem c hc => ?_) hlisted
    obtain ⟨declared, s₂, -, hitem⟩ := exists_of_bind_eq_ok hitem
    obtain ⟨rfl, -⟩ := of_pure_eq_ok hitem
    obtain ⟨m, hm, rfl⟩ := List.mem_map.mp hc
    exact (List.mem_filter.mp hm).2
  obtain ⟨members, hmembers, hc⟩ := List.mem_flatten.mp hmem
  obtain ⟨item, -, hall⟩ := exists_mem_of_forall₂_right hpasses hmembers
  exact hall candidate hc

/-- Under a mask that sees no member of an instance only static members are listed. -/
theorem isStatic_of_candidates {registry : Registry} {access : Access} (haccess : access.StaticOnly)
    {query : Query} {t : TypeId} {s s' : Store} {found : List (Member × Nat)}
    (h : candidates registry access query t s = .ok found s') {candidate : Member × Nat}
    (hmem : candidate ∈ found) : candidate.1.isStatic := by
  have hpasses := isCandidate_of_candidates h hmem
  simp only [isCandidate, Bool.and_eq_true] at hpasses
  exact haccess.isStatic hpasses.2

namespace Resolver

variable {resolver : Resolver} {s s' : Store} {t : TypeId} {query : Query} {answer : Resolution}

/-- **An answer is static** where the mask in effect sees no member of an instance. -/
theorem isStatic_of_tryResolve
    (haccess : (resolver.options.effectiveAccess query.access).StaticOnly)
    (h : resolver.tryResolve t query s = .ok (some answer) s') : answer.member.isStatic := by
  obtain ⟨u, arguments, best, s₁, s₂, s₃, hchoose, hfinish⟩ := exists_choose_of_tryResolve h
  obtain ⟨found, hfound, hmem, -⟩ := exists_of_choose hchoose
  have hbest : best.member.isStatic := isStatic_of_candidates haccess hfound hmem
  obtain ⟨-, -, -, ⟨_, _, -, -, hclose⟩ | ⟨-, hmember, -⟩⟩ := finish_cases hfinish
  · rw [Member.isStatic_of_close hclose, hbest]
  · rw [hmember, hbest]

end Resolver

end CallSite
