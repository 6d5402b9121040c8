import CallSite.Proofs.Resolve.Candidates
import CallSite.Proofs.Type.Ending

/-!
# Members where hierarchies end

To list the candidates on a type is to replace parameters in the types of registered members, and to
make the parameters of open methods again. The types of registered members were there when the
hierarchies were known to end, so none of this fails, however much the store has grown since then.

* `memberSubstitute_runs` – a member under a substitution.
* `candidates_runs` – the candidates on a type. That type may have been made later.
-/

namespace CallSite

section Members

variable {s₀ s : Store} (hs₀ : s₀.WellFormed) (hends : s₀.Ends) (hext : s₀.Extends s)
  (hs : s.WellFormed)

include hs₀ hends hext hs

/-! ### Members -/

section Substitution

variable {σ : Substitution} (hσ : σ.HeldBy s)

include hσ

theorem anyChanges_runs {ts : List TypeId} (hts : ∀ t ∈ ts, s₀.Holds t) :
    Runs (anyChanges σ ts) s := by
  induction ts generalizing s with
  | nil => exact .pure hs _
  | cons t ts ih =>
    rw [anyChanges]
    refine (substitute_runs hs₀ hends hext hs (hts t List.mem_cons_self) hσ).bind
      fun u s' _ hgrown => ?_
    split
    · exact ih (hext.trans hgrown.toExtends) hgrown.wellFormed (hσ.of_extends hgrown.toExtends)
        fun t' ht' => hts t' (List.mem_cons_of_mem _ ht')
    · exact .pure hgrown.wellFormed _

/-- Each type of a member is replaced. Its generic parameters do not matter: they may have been made
since. -/
theorem replaceTypes_runs {m : Member} (hdeclaring : s₀.Holds m.declaringType)
    (hparameters : ∀ p ∈ m.parameters, s₀.Holds p.type)
    (hvalue : ∀ t, m.valueType = some t → s₀.Holds t)
    (harguments : ∀ t ∈ m.genericArguments, s₀.Holds t) : Runs (m.replaceTypes σ) s := by
  have hrun : ∀ {s' t}, s.Grown s' → s₀.Holds t → Runs (substitute σ t) s' := fun hgrown ht =>
    substitute_runs hs₀ hends (hext.trans hgrown.toExtends) hgrown.wellFormed ht
      (hσ.of_extends hgrown.toExtends)
  refine (hrun (.refl hs) hdeclaring).bind fun _ s₁ _ h₁ => ?_
  refine (Runs.mapM h₁.wellFormed _ fun p hp s' hgrown => ?_).bind fun _ s₂ _ h₂ => ?_
  · exact (hrun (h₁.trans hgrown) (hparameters p hp)).bind
      fun _ _ _ hgrown' => .pure hgrown'.wellFormed _
  have h₁₂ := h₁.trans h₂
  refine (Runs.option_mapM h₂.wellFormed _ fun t ht => hrun h₁₂ (hvalue t ht)).bind
    fun _ s₃ _ h₃ => ?_
  refine (Runs.mapM h₃.wellFormed _ fun t ht s' hgrown =>
    hrun ((h₁₂.trans h₃).trans hgrown) (harguments t ht)).bind
      fun _ _ _ h₄ => .pure h₄.wellFormed _

variable {m : Member} (hm : m.HeldBy s₀)

include hm

theorem constraintsChange_runs : Runs (m.constraintsChange σ) s := by
  obtain ⟨-, -, -, hparameters, -⟩ := Member.heldBy_iff.mp hm
  refine .get_bind ?_
  rw [Store.constraintsOf_of_extends hext hparameters]
  exact anyChanges_runs hs₀ hends hext hs hσ fun c hc => hs₀.holds_constraintsOf hc

theorem memberRebind_runs : Runs (m.rebind σ) s := by
  obtain ⟨-, -, -, hparameters, -⟩ := Member.heldBy_iff.mp hm
  rw [Member.rebind]
  split
  case h_1 => exact .pure hs _
  case h_2 token _ =>
    split
    · exact .pure hs _
    refine (constraintsChange_runs hs₀ hends hext hs hσ hm).bind fun changes s' _ hgrown => ?_
    split
    · exact (rebind_runs hs₀ hends (hext.trans hgrown.toExtends) hgrown.wellFormed hparameters token
        (hσ.of_extends hgrown.toExtends)).bind fun _ _ _ hgrown' => .pure hgrown'.wellFormed _
    · exact .pure hgrown.wellFormed _

/-- **A registered member is brought under a substitution** where hierarchies end. -/
theorem memberSubstitute_runs : Runs (m.substitute σ) s := by
  obtain ⟨hdeclaring, hparameters, hvalue, -, harguments⟩ := Member.heldBy_iff.mp hm
  rw [Member.substitute_eq]
  refine (memberRebind_runs hs₀ hends hext hs hσ hm).bind fun ⟨m₁, τ⟩ s₁ hrun h₁ => ?_
  obtain ⟨-, -, -, hτ, hrebound⟩ := (builds_memberRebind hs hσ (hm.of_extends hext)).of_ok hrun
  have hext₁ := hext.trans h₁.toExtends
  -- The types that are replaced are those of the member, whatever became of its own parameters.
  cases hrebound with
  | kept =>
    exact replaceTypes_runs hs₀ hends hext₁ h₁.wellFormed hτ hdeclaring hparameters hvalue
      harguments
  | again =>
    exact replaceTypes_runs hs₀ hends hext₁ h₁.wellFormed hτ hdeclaring hparameters hvalue
      harguments

end Substitution

/-! ### Candidates -/

variable {registry : Registry} (hregistry : registry.HeldBy s₀)

include hregistry

theorem declaredMembers_runs (t : TypeId) (kind : MemberKind) :
    Runs (declaredMembers registry t kind) s := by
  refine .get_bind ?_
  dsimp only
  split
  case h_1 => exact .pure hs _
  case h_2 d _ =>
    have hσ : (Substitution.forType d (s.info t).arguments).HeldBy s := .forType fun a ha =>
      hs.holds_part (hs.mem_parts_of_mem_arguments ha)
    exact .mapM hs _ fun m hm s' hgrown => memberSubstitute_runs hs₀ hends
      (hext.trans hgrown.toExtends) hgrown.wellFormed (hσ.of_extends hgrown.toExtends)
      (hregistry.declared hm)

/-- **Candidates are listed** where hierarchies end. -/
theorem candidates_runs (access : Access) (query : Query) (t : TypeId) :
    Runs (candidates registry access query t) s := by
  refine .get_bind ((Runs.mapM hs _ fun entry _ s' hgrown => ?_).bind
    fun _ _ _ hgrown => .pure hgrown.wellFormed _)
  exact (declaredMembers_runs hs₀ hends (hext.trans hgrown.toExtends) hgrown.wellFormed hregistry
    entry.1 query.kind).bind fun _ _ _ hgrown' => .pure hgrown'.wellFormed _

end Members

end CallSite
