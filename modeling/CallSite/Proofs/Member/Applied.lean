import CallSite.Proofs.Member.Close

/-!
# How much of a substitution a member takes

A member under a substitution has every type rewritten, and one would like to say that whatever the
substitution replaces is replaced (`Member.Applies`). That is so until the parameters of an open
method have to be made again: they are then replaced by what was made of them, and this replacement
takes the place of the method part that was given. The part for the parameters of types stays. So
the member takes the whole substitution but for one thing: where its method is made again, the
parameters of other methods stay what they are (`Member.Forgets`).

* `Member.Retyped` – a member with each of its types related to the one before.
* `Member.IsRemade` – the parameters of an open method have to be made again.
* `CallSite.builds_substitute_retyped` – the substitution that the types are rewritten with.
* `CallSite.substitute_applies_iff` – which types of a member take the whole substitution.
* `CallSite.substitute_applies` – all of them do, if it has no part for another method.
-/

namespace CallSite

open Substitution (forType)

namespace Member

/-! ### Members with other types -/

/-- **A member has other types**: each of them is related to the one that stood there, and nothing
else of a parameter is different. -/
structure Retyped (R : TypeId → TypeId → Prop) (m m' : Member) : Prop where
  /-- The declaring type. -/
  declaringType : R m.declaringType m'.declaringType
  /-- The parameters. -/
  parameters : List.Forall₂ (fun p p' : Parameter => p' = { p with type := p'.type } ∧
    R p.type p'.type) m.parameters m'.parameters
  /-- The type of the value. -/
  valueType : Option.Rel R m.valueType m'.valueType
  /-- The arguments of a generic method. -/
  genericArguments : List.Forall₂ R m.genericArguments m'.genericArguments

variable {m m' : Member} {s s' : Store} {σ : Substitution}

theorem Retyped.imp {R R' : TypeId → TypeId → Prop} (h : m.Retyped R m')
    (himp : ∀ t ∈ m.types, ∀ u, R t u → R' t u) : m.Retyped R' m' := by
  obtain ⟨hdeclaring, hparameters, hvalue, -, harguments⟩ := forall_mem_types_iff.mp himp
  refine ⟨hdeclaring _ h.declaringType, ?_, ?_, ?_⟩
  · exact forall₂_imp_of_mem h.parameters fun p hp p' _ ⟨hsame, htype⟩ =>
      ⟨hsame, hparameters p hp _ htype⟩
  · exact rel_imp_of_mem h.valueType fun t u ht _ => hvalue t ht u
  · exact forall₂_imp_of_mem h.genericArguments fun t ht u _ => harguments t ht u

theorem Replaced.retyped (h : m.Replaced s σ m') : m.Retyped (Image s σ.Sends) m' :=
  ⟨h.declaringType, h.parameters, h.valueType, h.genericArguments⟩

/-! ### What a substitution is to do -/

/-- **What a parameter is to become** under a whole substitution: what it is replaced by; and if it
is not replaced it stays, or it is exchanged as a parameter of the open method for what the method
has in its place now. -/
def Applies (m : Member) (σ : Substitution) (m' : Member) : Valuation := fun x p y =>
  match σ.lookup p with
  | some a => y = a
  | none => y = x ∨ ∃ token, m.openMethod = some token ∧ p.owner = .method token ∧
      m'.genericParameters[p.position]? = some y

/-- **The parameters of a method have to be made again**: the method is open, and a substitution
that is none of its own parameters changes the constraints of some of them. -/
structure IsRemade (m : Member) (s : Store) (σ : Substitution) (token : MethodToken) : Prop where
  /-- The method is open. -/
  open_eq : m.openMethod = some token
  /-- The substitution does not replace its parameters. -/
  other : σ.methodOwner ≠ some token
  /-- A constraint changes. -/
  changes : ∃ c ∈ s.constraintsOf m.genericParameters, ¬ Image s σ.Sends c c

/-- **What is forgotten in a type of a member**: the method is made again, and the type mentions a
parameter of another method that the substitution replaces. -/
def Forgets (m : Member) (s : Store) (σ : Substitution) (t : TypeId) : Prop :=
  ∃ token x p a other, m.IsRemade s σ token ∧ s.Mentions t x ∧ (s.info x).shape = .parameter p ∧
    p.owner = .method other ∧ σ.lookup p = some a ∧ a ≠ x

/-- Nothing is forgotten by a substitution that has no part for a method, or one for the open method
itself, nor in a member that is no open method. -/
theorem not_forgets (h : σ.methodOwner = none ∨ σ.methodOwner = m.openMethod ∨ m.openMethod = none)
    (t : TypeId) : ¬ m.Forgets s σ t := by
  rintro ⟨token, x, p, a, other, hremade, -, -, howner, hlookup, -⟩
  rcases h with h | h | h
  · rw [Substitution.lookup_of_method howner, h, if_neg (Option.some_ne_none other).symm] at hlookup
    cases hlookup
  · exact hremade.other (h.trans hremade.open_eq)
  · cases h.symm.trans hremade.open_eq

theorem IsRemade.lookup_own {token : MethodToken} (h : m.IsRemade s σ token) {p : GenericParameter}
    (hp : p.owner = .method token) : σ.lookup p = none := by
  rw [Substitution.lookup_of_method hp, if_neg h.other]

end Member

/-! ### What it does -/

section Types

variable {m m' : Member} {s s' : Store} {σ : Substitution} {token : MethodToken} {t t' : TypeId}

/-- Where nothing is made again, the whole substitution is applied. -/
theorem Image.applies_of_sends (h : Image s σ.Sends t t') : Image s (m.Applies σ m') t t' := by
  refine h.mono fun x p y _ _ hy => ?_
  rw [Substitution.Sends] at hy
  rw [Member.Applies]
  cases hlookup : σ.lookup p with
  | some a => rwa [hlookup] at hy
  | none =>
    rw [hlookup] at hy
    exact .inl hy

/-- What a parameter becomes where the method is made again is what the whole substitution asks for,
unless the parameter belongs to another method and is to be replaced. -/
theorem Member.IsRemade.applies (h : m.IsRemade s σ token) {x y : TypeId} {p : GenericParameter}
    (hy : (σ.withMethod token m'.genericParameters).Sends x p y)
    (hkept : ∀ other a, p.owner = .method other → σ.lookup p = some a → a = x) :
    m.Applies σ m' x p y := by
  rw [Substitution.Sends] at hy
  rw [Member.Applies]
  cases howner : p.owner with
  | type d =>
    rw [Substitution.lookup_withMethod_of_type howner] at hy
    cases hlookup : σ.lookup p with
    | some a => rwa [hlookup] at hy
    | none =>
      rw [hlookup] at hy
      exact .inl hy
  | method other =>
    rw [Substitution.lookup_withMethod_of_method howner] at hy
    by_cases hown : other = token
    · subst hown
      rw [h.lookup_own howner]
      rw [Substitution.lookup_forMethod howner] at hy
      cases hcopy : m'.genericParameters[p.position]? with
      | some c =>
        rw [hcopy] at hy
        exact .inr ⟨other, h.open_eq, rfl, congrArg some hy.symm⟩
      | none =>
        rw [hcopy] at hy
        exact .inl hy
    · have hne : p.owner ≠ .method token := fun h => hown (Owner.method.inj (howner.symm.trans h))
      rw [Substitution.lookup_forMethod_of_ne hne] at hy
      cases hlookup : σ.lookup p with
      | some a => exact hy.trans (hkept other a howner hlookup).symm
      | none => exact .inl hy

/-- **Where the method is made again**, a type takes the whole substitution unless something is
forgotten in it. -/
theorem Image.applies_iff_of_remade (hs : s.Formed) (hs' : s'.Formed) (hext : s.Extends s')
    (ht : s.Holds t) (hremade : m.IsRemade s σ token)
    (h : Image s' (σ.withMethod token m'.genericParameters).Sends t t') :
    Image s' (m.Applies σ m') t t' ↔ ¬ m.Forgets s σ t := by
  constructor
  · rintro happlies ⟨token', x, p, a, other, hremade', hx, hp, howner, hlookup, hne⟩
    obtain rfl : token' = token := Option.some.inj (hremade'.open_eq.symm.trans hremade.open_eq)
    -- The parameter of the other method stayed, but it is to be replaced.
    rw [← hext.info_eq hx.holds] at hp
    obtain ⟨y, hy, hy'⟩ := happlies.agree h ((hext.mentions_iff hs ht).mpr hx) hp hs'
    rw [Member.Applies, hlookup] at hy
    have hother : p.owner ≠ .method token' := fun howner' =>
      Option.some_ne_none a (hlookup.symm.trans (hremade.lookup_own howner'))
    rw [Substitution.Sends, Substitution.lookup_withMethod_of_method howner,
      Substitution.lookup_forMethod_of_ne hother] at hy'
    exact hne (hy.symm.trans hy')
  · intro hkeeps
    refine h.mono fun x p y hx hp hy => hremade.applies hy fun other a howner hlookup => ?_
    replace hx := (hext.mentions_iff hs ht).mp hx
    rw [hext.info_eq hx.holds] at hp
    by_contra hstays
    exact hkeeps ⟨token, x, p, a, other, hremade, hx, hp, howner, hlookup, hstays⟩

end Types

section Substitute

variable {s : Store} {σ : Substitution} {m : Member} (hs : s.WellFormed) (hσ : σ.HeldBy s)
  (hm : m.HeldBy s)

include hs hσ hm

/-- **What the types of a member are rewritten with**: the substitution that was given, or this one
with its method part replaced by what the parameters of the method were made again as. -/
theorem builds_substitute_retyped : Builds (m.substitute σ) s fun m' s' =>
    (∀ token, ¬ m.IsRemade s σ token) ∧ m.Retyped (Image s' σ.Sends) m' ∨
    ∃ token, m.IsRemade s σ token ∧
      m.Retyped (Image s' (σ.withMethod token m'.genericParameters).Sends) m' := by
  rw [Member.substitute_eq]
  refine (builds_memberRebind hs hσ hm).bind hs fun rebound s₁ h₁ hrebound => ?_
  obtain ⟨m₁, τ⟩ := rebound
  obtain ⟨hm₁, hτ, hrebound⟩ := hrebound
  refine (builds_replaceTypes h₁.wellFormed hτ hm₁).imp fun m' s' _ hreplaced => ?_
  obtain ⟨-, hreplaced⟩ := hreplaced
  have hretyped := hreplaced.retyped
  cases hrebound with
  | kept hstays =>
    refine .inl ⟨fun token hremade => ?_, hretyped⟩
    obtain ⟨c, hc, hne⟩ := hremade.changes
    exact hne (hstays token hremade.open_eq hremade.other c hc)
  | again hopen hother hchanges =>
    refine .inr ⟨_, ⟨hopen, hother, hchanges⟩, ?_⟩
    rw [hreplaced.genericParameters_same]
    exact { hretyped with }

theorem builds_substitute_applies : Builds (m.substitute σ) s fun m' s' =>
    m.Retyped (fun t t' => Image s' (m.Applies σ m') t t' ↔ ¬ m.Forgets s σ t) m' := by
  refine (builds_substitute_retyped hs hσ hm).imp fun m' s' hgrown hretyped => ?_
  rcases hretyped with ⟨hkept, hretyped⟩ | ⟨token, hremade, hretyped⟩
  · refine hretyped.imp fun t _ t' himage => iff_of_true himage.applies_of_sends ?_
    rintro ⟨token, -, -, -, -, hremade, -⟩
    exact hkept token hremade
  · exact hretyped.imp fun t ht t' himage => himage.applies_iff_of_remade hs.toFormed
      hgrown.wellFormed.toFormed hgrown.toExtends (hm t ht) hremade

end Substitute

/-- **A member takes the whole substitution but for what is forgotten**: a type of it takes all that
is to be replaced exactly where nothing is forgotten in it, and the types fail to be made only where
a hierarchy expands without end. -/
theorem substitute_applies_iff {allowed : Store → Operation → Prop} {s : Store}
    (hreach : s.Reachable allowed) {m : Member} (hm : m.HeldBy s) {σ : Substitution}
    (hσ : σ.HeldBy s) :
    (∀ m' s', m.substitute σ s = .ok m' s' →
      m.Retyped (fun t t' => Image s' (m.Applies σ m') t t' ↔ ¬ m.Forgets s σ t) m') ∧
    ∀ e s', m.substitute σ s = .error e s' → e.IsEndless := by
  have hbuilds := builds_substitute_applies hreach.wellFormed hσ hm
  exact ⟨fun m' s' hrun => (hbuilds.of_ok hrun).2.2, fun e s' hrun => (hbuilds.of_error hrun).2⟩

/-- **A member takes the whole substitution** if this has no part for another method. -/
theorem substitute_applies {s : Store} (hs : s.WellFormed) {m : Member} (hm : m.HeldBy s)
    {σ : Substitution} (hσ : σ.HeldBy s)
    (hpart : σ.methodOwner = none ∨ σ.methodOwner = m.openMethod ∨ m.openMethod = none) :
    Builds (m.substitute σ) s fun m' s' => m.Retyped (Image s' (m.Applies σ m')) m' :=
  (builds_substitute_applies hs hσ hm).imp fun _ _ _ hretyped =>
    hretyped.imp fun t _ _ hiff => hiff.mpr (Member.not_forgets hpart t)

/-! ### Two methods -/

/-- A run that defines boxes of `T` and the parameters `U` and `V` of two methods, of which `U` has
to be a `T`. -/
def putRun : List Operation :=
  [.define "Box" .classKind ["T"], .newMethod, .methodParameters ⟨0⟩ ["U"], .newMethod,
    .methodParameters ⟨1⟩ ["V"], .constrain ⟨29⟩ Flags.none [⟨28⟩]]

/-- The method of `U` on boxes with a parameter of a given type. -/
def putMethod (type : TypeId) : Member :=
  (Member.method "Put" ⟨27⟩ [{ position := 0, name := none, type }] Core.void).withGenericMethod ⟨0⟩
    [⟨29⟩]

/-- Put a number for `T` and a text for `V`. -/
def putting : Substitution :=
  (forType ⟨27⟩ [Core.int32]).withMethod ⟨1⟩ [Core.string]

/-- The method that takes a `U` is made again for boxes of numbers, and takes the parameter that was
made. -/
theorem substitute_applies_iff_put :
    ∃ s m' s', s = Store.initial.afterAll putRun ∧
      (putMethod ⟨29⟩).substitute putting s = .ok m' s' ∧
      s'.constraintsOf m'.genericParameters = [Core.int32] ∧
      m'.parameters.map Parameter.type = m'.genericParameters ∧
      (putMethod ⟨29⟩).Retyped (fun t t' => Image s' ((putMethod ⟨29⟩).Applies putting m') t t' ↔
        ¬ (putMethod ⟨29⟩).Forgets s putting t) m' := by
  obtain ⟨s, heq, hreach, hheld, hσ, hsucceeds⟩ : ∃ s : Store,
      s = Store.initial.afterAll putRun ∧ s.Reachable (fun s op => op.Scoped s) ∧
      (∀ t ∈ (putMethod ⟨29⟩).types, t.index < s.size) ∧ putting.isHeldBy s ∧
      succeedsWith ((putMethod ⟨29⟩).substitute putting) s (fun m' s' =>
        s'.constraintsOf m'.genericParameters = [Core.int32] ∧
        m'.parameters.map Parameter.type = m'.genericParameters) :=
    ⟨_, rfl, .of_scopedRun (by decide +kernel), by decide +kernel⟩
  obtain ⟨m', s', hrun, hresult⟩ := exists_of_succeedsWith hsucceeds
  obtain ⟨hconstraints, htypes⟩ := of_decide_eq_true hresult
  exact ⟨s, m', s', heq, hrun, hconstraints, htypes,
    (substitute_applies_iff hreach hheld (.of_check hσ)).1 m' s' hrun⟩

/-- **The part for another method is forgotten.** The method that takes a `V` is made again for
boxes of numbers in the same way, and it still takes a `V` instead of a text. -/
theorem substitute_forgets :
    ∃ s m' s', s.Reachable (fun s op => op.Scoped s) ∧ (putMethod ⟨30⟩).HeldBy s ∧
      putting.HeldBy s ∧ (putMethod ⟨30⟩).substitute putting s = .ok m' s' ∧
      s'.constraintsOf m'.genericParameters = [Core.int32] ∧
      m'.parameters = (putMethod ⟨30⟩).parameters ∧
      ¬ (putMethod ⟨30⟩).Retyped (Image s' ((putMethod ⟨30⟩).Applies putting m')) m' := by
  obtain ⟨s, hreach, hheld, hσ, hsucceeds⟩ : ∃ s : Store,
      s.Reachable (fun s op => op.Scoped s) ∧ (∀ t ∈ (putMethod ⟨30⟩).types, t.index < s.size) ∧
      putting.isHeldBy s ∧
      succeedsWith ((putMethod ⟨30⟩).substitute putting) s (fun m' s' =>
        s'.constraintsOf m'.genericParameters = [Core.int32] ∧
        m'.parameters = (putMethod ⟨30⟩).parameters ∧
        (s'.info ⟨30⟩).parameter?.bind putting.lookup = some Core.string) :=
    ⟨Store.initial.afterAll putRun, .of_scopedRun (by decide +kernel), by decide +kernel⟩
  obtain ⟨m', s', hrun, hresult⟩ := exists_of_succeedsWith hsucceeds
  obtain ⟨hconstraints, hsame, hlookup⟩ := of_decide_eq_true hresult
  refine ⟨s, m', s', hreach, hheld, .of_check hσ, hrun, hconstraints, hsame, fun hretyped => ?_⟩
  -- The parameter of the other method would be its own image, but it is to be replaced by a text.
  have hparameters := hretyped.parameters
  rw [hsame] at hparameters
  obtain ⟨⟨-, himage⟩, -⟩ := List.forall₂_cons.mp hparameters
  obtain ⟨p, hp, hlookup⟩ := Option.bind_eq_some_iff.mp hlookup
  have hstays := (Image.parameter_iff (TypeInfo.parameter?_eq_some_iff.mp hp)).mp himage
  rw [Member.Applies, hlookup] at hstays
  exact absurd (TypeId.mk.inj hstays) (by decide)

end CallSite
