import CallSite.Proofs.Type.Completion
import CallSite.Proofs.Type.Tables

/-!
# Method parameters that are made again

To make the parameters of a method again is to append a copy of each and then to write constraints
to the copies, one after another, each of them an image of what constrains the parameter. Only rows
that were not there before are changed, so the store grows; the images are complete, and the only
thing that may fail on the way is to make one (`builds_rebind`).
-/

namespace CallSite

/-! ### One parameter -/

theorem Substitution.HeldBy.withMethod {σ : Substitution} {s : Store} (h : σ.HeldBy s)
    (m : MethodToken) {args : List TypeId} (hargs : ∀ a ∈ args, s.Holds a) :
    (σ.typePart.withMethod m args).HeldBy s := by
  intro p u hu
  cases hp : p.owner with
  | type d =>
    refine h p u ?_
    rw [Substitution.lookup_of_type hp] at hu ⊢
    exact hu
  | method m' =>
    rw [Substitution.lookup_of_method hp] at hu
    split at hu
    · exact hargs u (List.mem_of_getElem? hu)
    · cases hu

theorem Substitution.HeldBy.forMethod {s : Store} (m : MethodToken) {args : List TypeId}
    (hargs : ∀ a ∈ args, s.Holds a) : (Substitution.forMethod m args).HeldBy s := by
  have hempty : ({} : Substitution).HeldBy s := fun p u hu => by
    rw [Substitution.lookup_of_isEmpty rfl] at hu
    cases hu
  exact hempty.withMethod m hargs

theorem Store.completedBy_setConstraints {s₀ s : Store} (h : s₀.CompletedBy s) (t : TypeId)
    (flags : Flags) (cs : List TypeId) : s₀.CompletedBy (s.setConstraints t flags cs) :=
  h.keep (sameForms_setConstraints s t flags cs) fun u => keepsAbove_edit (fun info => by
    split <;> exact ⟨rfl, rfl⟩) u

/-- The constraints of a copy are written after the copy was made. -/
theorem builds_copyConstraints {s₀ s : Store} (h₀ : s₀.Grown s) (hc : s₀.CompletedBy s)
    {σ : Substitution} (hσ : σ.HeldBy s) {old new : TypeId} (hnew : ¬ s₀.Holds new) :
    BuildsFrom s₀ (copyConstraints σ old new) s fun _ s' => s.size ≤ s'.size := by
  have hs := h₀.wellFormed
  unfold copyConstraints
  refine .get_bind ?_
  split
  case h_1 => exact ⟨h₀, hc, Nat.le_refl _⟩
  case h_2 p hp =>
    have hshape := TypeInfo.parameter?_eq_some_iff.mp hp
    have hcons : ∀ c ∈ p.constraints, s.Holds c := fun c hc => hs.holds_constraint (t := old) (by
      rw [TypeInfo.constraints_of_parameter hshape]
      exact hc)
    refine Builds.bind_from h₀ (.mapM (P := fun _ u s' => s'.Holds u) hs
      (fun _ _ _ _ hgrown _ hu => hgrown.holds hu) p.constraints fun c hc s' hgrown =>
        (builds_substitute hgrown.wellFormed (hgrown.holds (hcons c hc))
          (hσ.of_extends hgrown.toExtends)).imp fun _ _ _ hu => hu.1) ?_
    intro us s' hgrown hcompleted hus
    refine ⟨(h₀.trans hgrown).edit hnew (hgrown.wellFormed.setConstraints fun u hu => ?_)
      fun hsc => hsc.setConstraints,
      Store.completedBy_setConstraints (hc.trans hs hgrown.toExtends hcompleted) _ _ _, ?_⟩
    · obtain ⟨k, hk, rfl⟩ := List.mem_iff_getElem.mp hu
      exact List.Forall₂.get hus (hus.length_eq ▸ hk) hk
    · exact Nat.le_trans hgrown.size_le (Nat.le_of_eq (Store.size_edit _ _ _).symm)

/-! ### All parameters of a method -/

section Copies

variable {s : Store} (hs : s.WellFormed) (ps : List TypeId)

theorem Store.mem_copies {t : TypeId} (ht : t ∈ (s.copies ps).1) :
    ¬ s.Holds t ∧ (s.copies ps).2.Holds t := by
  obtain ⟨k, hk⟩ := List.mem_iff_getElem?.mp ht
  rw [copies, defineMethodParameters, getElem?_addParameters] at hk
  split at hk
  case isFalse => cases hk
  case isTrue hlt =>
    cases hk
    refine ⟨Nat.not_lt_of_le (Nat.le_add_right _ _), ?_⟩
    rw [Holds, copies, defineMethodParameters, size_addParameters]
    exact Nat.add_lt_add_left hlt _

include hs

theorem Store.grown_copies : s.Grown (s.copies ps).2 := by
  have hgrown : s.Grown s.newMethod.2 := .of_types_eq hs rfl fun h => hs.holds_rebound h
  exact hgrown.trans ⟨extends_addParameters _ _ _ _, hgrown.wellFormed.addParameters _ _ _,
    fun hsc => hsc.addParameters hgrown.wellFormed _ _ _⟩

/-- **The loop over all parameters** writes to copies only, and fails only where an image expands
without end. -/
theorem builds_copyAllConstraints (m : MethodToken) {σ : Substitution} (hσ : σ.HeldBy s) :
    BuildsFrom s (copyAllConstraints m ps (s.copies ps).1 σ) (s.copies ps).2
      fun _ s' => (s.copies ps).2.size ≤ s'.size := by
  have hgrown := Store.grown_copies hs ps
  have hσ' : (σ.typePart.withMethod m (s.copies ps).1).HeldBy (s.copies ps).2 :=
    (hσ.of_extends hgrown.toExtends).withMethod _ fun t ht => (Store.mem_copies ps ht).2
  refine .forM _ hgrown (Store.completedBy_addParameters _ 0 _ s.newMethod.2)
    fun entry hmem s' h₀ hc hle => ?_
  have hσs : (σ.typePart.withMethod m (s.copies ps).1).HeldBy s' := fun p u hu =>
    Nat.lt_of_lt_of_le (hσ' p u hu) hle
  exact builds_copyConstraints h₀ hc hσs (Store.mem_copies ps (List.of_mem_zip hmem).2).1

/-- **Method parameters are made again** at the end of the store, and they are held. -/
theorem builds_rebind (m : MethodToken) {σ : Substitution} (hσ : σ.HeldBy s) :
    Builds (rebindMethodParameters m ps σ) s fun found s' => ∀ t ∈ found.2, s'.Holds t := by
  cases hlookup : s.rebound.lookup ⟨m, σ.typeOwner, σ.typeArguments⟩ with
  | some found =>
    rw [Builds, BuildsFrom, rebind_of_lookup hlookup]
    exact ⟨.refl hs, .refl s, hs.holds_rebound (mem_of_lookup_eq_some hlookup)⟩
  | none =>
    rw [Builds, BuildsFrom, rebind_of_lookup_eq_none hlookup]
    refine (builds_copyAllConstraints hs ps m hσ).bind fun _ s' h₀ hc hle => ?_
    have hheld : ∀ t ∈ (s.copies ps).1, s'.Holds t := fun t ht =>
      Nat.lt_of_lt_of_le (Store.mem_copies ps ht).2 hle
    refine ⟨h₀.trans (.of_types_eq h₀.wellFormed rfl fun {entry} hentry t ht => ?_),
      hc.keep (Store.sameForms_of_types_eq rfl) fun _ => ⟨rfl, rfl⟩, hheld⟩
    rcases List.mem_cons.mp hentry with rfl | hentry
    · exact hheld t ht
    · exact h₀.wellFormed.holds_rebound hentry t ht

end Copies

end CallSite
