import CallSite.Proofs.Type.Repeat

/-!
# Members under a substitution, again

The types of a member are replaced one after another, and every one of these substitutions settles.
The only thing that is new each time is a method token, and that is looked up by the request that it
was made for. So a member under a substitution is the same member whenever it is made.
-/

namespace CallSite

/-! ### The types of a member -/

/-- **The types that occur in a member.** -/
def Member.types (m : Member) : List TypeId :=
  m.declaringType :: (m.parameters.map Parameter.type ++ m.valueType.toList ++
    m.genericParameters ++ m.genericArguments)

/-- The types of a member are held. -/
def Member.HeldBy (m : Member) (s : Store) : Prop :=
  ∀ t ∈ m.types, s.Holds t

/-- The types of all members are held. -/
def Registry.HeldBy (registry : Registry) (s : Store) : Prop :=
  ∀ m ∈ registry.members.toList, m.HeldBy s

namespace Member

variable {m : Member} {s s' : Store}

theorem forall_mem_types_iff {P : TypeId → Prop} : (∀ t ∈ m.types, P t) ↔ P m.declaringType ∧
    (∀ p ∈ m.parameters, P p.type) ∧ (∀ t, m.valueType = some t → P t) ∧
    (∀ t ∈ m.genericParameters, P t) ∧ ∀ t ∈ m.genericArguments, P t := by
  simp [types, or_imp, forall_and]

theorem heldBy_iff : m.HeldBy s ↔ s.Holds m.declaringType ∧
    (∀ p ∈ m.parameters, s.Holds p.type) ∧ (∀ t, m.valueType = some t → s.Holds t) ∧
    (∀ t ∈ m.genericParameters, s.Holds t) ∧ ∀ t ∈ m.genericArguments, s.Holds t :=
  forall_mem_types_iff

theorem HeldBy.of_extends (h : m.HeldBy s) (hext : s.Extends s') : m.HeldBy s' :=
  fun t ht => hext.holds (h t ht)

/-- A generic method with other parameters. -/
theorem HeldBy.withGenericMethod (h : m.HeldBy s) (token : MethodToken) {ps : List TypeId}
    (hps : ∀ t ∈ ps, s.Holds t) : (m.withGenericMethod token ps).HeldBy s := by
  obtain ⟨hdeclaring, hparameters, hvalue, -, harguments⟩ := heldBy_iff.mp h
  exact heldBy_iff.mpr ⟨hdeclaring, hparameters, hvalue, hps, harguments⟩

end Member

theorem Registry.HeldBy.declared {registry : Registry} {s : Store} (h : registry.HeldBy s)
    {t : TypeId} {kind : MemberKind} {m : Member} (hm : m ∈ registry.declared t kind) :
    m.HeldBy s :=
  h m (List.mem_filter.mp hm).1

theorem Registry.HeldBy.of_extends {registry : Registry} {s s' : Store} (h : registry.HeldBy s)
    (hext : s.Extends s') : registry.HeldBy s' :=
  fun m hm => (h m hm).of_extends hext

/-- What constrains generic parameters is held. -/
theorem Store.WellFormed.holds_constraintsOf {s : Store} (hs : s.WellFormed) {ps : List TypeId}
    {c : TypeId} (hc : c ∈ s.constraintsOf ps) : s.Holds c := by
  obtain ⟨t, -, hc⟩ := List.mem_flatMap.mp hc
  cases hp : (s.info t).parameter? with
  | none =>
    rw [hp] at hc
    cases hc
  | some p =>
    rw [hp] at hc
    refine hs.holds_constraint (t := t) ?_
    rw [TypeInfo.constraints_of_parameter (TypeInfo.parameter?_eq_some_iff.mp hp)]
    exact hc

/-! ### Substitutions -/

section Substitute

variable {s : Store} {σ : Substitution} (hs : s.WellFormed) (hσ : σ.HeldBy s)

include hs hσ

theorem settles_anyChanges {ts : List TypeId} (hts : ∀ t ∈ ts, s.Holds t) :
    Settles TypeError.IsEndless (anyChanges σ ts) s fun _ _ => True := by
  induction ts generalizing s with
  | nil => exact .pure hs trivial
  | cons t ts ih =>
    rw [anyChanges]
    refine (settles_substitute hs (hts t List.mem_cons_self) hσ).bind fun u s' happends _ => ?_
    split
    · exact ih happends.wellFormed (hσ.of_extends happends.toExtends) fun t' ht' =>
        happends.holds (hts t' (List.mem_cons_of_mem _ ht'))
    · exact .pure happends.wellFormed trivial

variable {m : Member} (hm : m.HeldBy s)

include hm

theorem settles_constraintsChange :
    Settles TypeError.IsEndless (m.constraintsChange σ) s fun _ _ => True := by
  obtain ⟨-, -, -, hparameters, -⟩ := Member.heldBy_iff.mp hm
  rw [Member.constraintsChange]
  exact .read (settles_anyChanges hs hσ fun t ht => hs.holds_constraintsOf ht) fun s' happends => by
    rw [Store.constraintsOf_of_extends happends.toExtends hparameters]

theorem settles_memberRebind :
    Settles TypeError.IsEndless (m.rebind σ) s fun found s' =>
      found.1.HeldBy s' ∧ found.2.HeldBy s' := by
  obtain ⟨-, -, -, hparameters, -⟩ := Member.heldBy_iff.mp hm
  rw [Member.rebind]
  split
  · exact .pure hs ⟨hm, hσ⟩
  case h_2 token _ =>
    split
    · exact .pure hs ⟨hm, hσ⟩
    refine (settles_constraintsChange hs hσ hm).bind fun changes s' happends _ => ?_
    have hσ' := hσ.of_extends happends.toExtends
    have hm' := hm.of_extends happends.toExtends
    split
    · refine (settles_rebind happends.wellFormed token m.genericParameters hσ').bind
        fun found s'' happends' hfound => .pure happends'.wellFormed ⟨?_, ?_⟩
      · exact (hm'.of_extends happends'.toExtends).withGenericMethod _ hfound
      · exact (hσ'.of_extends happends'.toExtends).withMethod token hfound
    · exact .pure happends.wellFormed ⟨hm', hσ'⟩

omit hm in
theorem settles_substituteParameter {p : Parameter} (hp : s.Holds p.type) :
    Settles TypeError.IsEndless (Member.substituteParameter σ p) s fun p' s' =>
      s'.Holds p'.type :=
  (settles_substitute hs hp hσ).bind fun _ _ happends hu => .pure happends.wellFormed hu

/-- **A member under a substitution settles.** -/
theorem settles_memberSubstitute :
    Settles TypeError.IsEndless (m.substitute σ) s fun m' s' => m'.HeldBy s' := by
  rw [Member.substitute]
  refine (settles_memberRebind hs hσ hm).bind fun ⟨m', σ'⟩ s₁ h₁ ⟨hm', hσ'⟩ => ?_
  obtain ⟨hdeclaring, hparameters, hvalue, hgeneric, harguments⟩ := Member.heldBy_iff.mp hm'
  refine (settles_substitute h₁.wellFormed hdeclaring hσ').bind fun declaring s₂ h₂ hd => ?_
  refine (Settles.mapM (P := fun (p : Parameter) s => s.Holds p.type) h₂.wellFormed
    (fun _ _ _ happends hp => happends.holds hp) _ fun p hp s' happends =>
      settles_substituteParameter happends.wellFormed
        (hσ'.of_extends (h₂.trans happends).toExtends)
        ((h₂.trans happends).holds (hparameters p hp))).bind fun ps s₃ h₃ hps => ?_
  refine (Settles.option_mapM (P := fun t s => s.Holds t) h₃.wellFormed _ fun t ht =>
    settles_substitute h₃.wellFormed ((h₂.trans h₃).holds (hvalue t ht))
      (hσ'.of_extends (h₂.trans h₃).toExtends)).bind fun value s₄ h₄ hv => ?_
  have h₂₄ := (h₂.trans h₃).trans h₄
  refine (Settles.mapM (P := fun t s => s.Holds t) h₄.wellFormed
    (fun _ _ _ happends ht => happends.holds ht) _ fun t ht s' happends =>
      settles_substitute happends.wellFormed ((h₂₄.trans happends).holds (harguments t ht))
        (hσ'.of_extends (h₂₄.trans happends).toExtends)).bind fun args s₅ h₅ hargs => ?_
  refine .pure h₅.wellFormed (Member.heldBy_iff.mpr ⟨?_, ?_, ?_, ?_, hargs⟩)
  · exact ((h₃.trans h₄).trans h₅).holds hd
  · exact fun p hp => (h₄.trans h₅).holds (hps p hp)
  · exact fun t ht => h₅.holds (hv t ht)
  · exact fun t ht => (h₂₄.trans h₅).holds (hgeneric t ht)

omit hσ in
/-- **A generic method that is given its arguments settles.** -/
theorem settles_memberClose {args : List TypeId} (hargs : ∀ a ∈ args, s.Holds a) :
    Settles TypeError.IsEndless (m.close args) s fun m' s' => m'.HeldBy s' := by
  rw [Member.close]
  split
  · exact .throw hs _
  case h_2 token _ =>
    split
    · exact .throw_bind hs _
    · refine (settles_memberSubstitute hs (.forMethod token hargs) hm).bind
        fun m' s' happends hm' => .pure happends.wellFormed ?_
      obtain ⟨hdeclaring, hparameters, hvalue, hgeneric, -⟩ := Member.heldBy_iff.mp hm'
      exact Member.heldBy_iff.mpr ⟨hdeclaring, hparameters, hvalue, hgeneric, fun a ha =>
        happends.holds (hargs a ha)⟩

end Substitute

end CallSite
