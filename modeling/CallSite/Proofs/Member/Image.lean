import CallSite.Proofs.Member.Repeat
import CallSite.Proofs.Type.Recorded

/-!
# The image of a member

A member under a substitution is the same member with each of its types replaced
(`CallSite.builds_memberSubstitute`). Only the generic parameters of an open method may be others:
when their constraints change they are made again, and the substitution that is applied to the
member then also replaces them by what was made. In what it does to the parameters of types it is
the one that was asked for.

* `Member.ImageOf` – a member is another one with its types replaced.
* `Member.Rebound` – what becomes of the parameters of a method under a substitution.
* `CallSite.builds_close` – a generic method is given its arguments.
* `Store.instantiation` – what a type puts in place of the parameters of its definition.
* `Member.OnType` – a member is what a registered member is on a type.
-/

namespace CallSite

/-! ### Images -/

/-- An open method is a generic one. -/
theorem Member.isSome_of_openMethod {m : Member} (h : m.openMethod.isSome) :
    m.genericMethod.isSome := by
  unfold openMethod at h
  split at h
  · exact h
  · cases h

/-- **A member is the image of another**: what is no type is the same, and each type is replaced. -/
structure Member.ImageOf (s : Store) (σ : Substitution) (m m' : Member) : Prop where
  /-- The number is the same. -/
  id_eq : m'.id = m.id
  /-- The name is the same. -/
  name_eq : m'.name = m.name
  /-- The kind is the same. -/
  kind_eq : m'.kind = m.kind
  /-- It is seen as widely. -/
  visibility_eq : m'.visibility = m.visibility
  /-- It belongs to the type where the other does. -/
  isStatic_eq : m'.isStatic = m.isStatic
  /-- It is a generic method where the other is. -/
  genericMethod_eq : m'.genericMethod.isSome = m.genericMethod.isSome
  /-- The declaring type is replaced. -/
  declaringType : Image s σ.Sends m.declaringType m'.declaringType
  /-- The type of each parameter is replaced, and nothing else of it. -/
  parameters : List.Forall₂ (fun p p' : Parameter => p' = { p with type := p'.type } ∧
    Image s σ.Sends p.type p'.type) m.parameters m'.parameters
  /-- The type of the value is replaced. -/
  valueType : Option.Rel (Image s σ.Sends) m.valueType m'.valueType

namespace Member.ImageOf

variable {s s' : Store} {σ : Substitution} {m m' : Member}

/-- A member stays the image of another while the store grows. -/
theorem of_extends (h : m.ImageOf s σ m') (hs : s.Formed) (hext : s.Extends s') (hm : m.HeldBy s)
    (hm' : m'.HeldBy s) : m.ImageOf s' σ m' := by
  obtain ⟨hdeclaring, hparameters, hvalue, -, -⟩ := heldBy_iff.mp hm
  obtain ⟨hdeclaring', hparameters', hvalue', -, -⟩ := heldBy_iff.mp hm'
  refine { h with declaringType := ?_, parameters := ?_, valueType := ?_ }
  · exact h.declaringType.of_extends hs hext hdeclaring hdeclaring'
  · exact forall₂_imp_of_mem h.parameters fun p hp p' hp' ⟨hsame, himage⟩ =>
      ⟨hsame, himage.of_extends hs hext (hparameters p hp) (hparameters' p' hp')⟩
  · exact rel_imp_of_mem h.valueType fun t t' ht ht' himage =>
      himage.of_extends hs hext (hvalue t ht) (hvalue' t' ht')

/-- A member is its own image where each of its types is. -/
theorem self (h : ∀ t ∈ m.types, Image s σ.Sends t t) : m.ImageOf s σ m := by
  obtain ⟨hdeclaring, hparameters, hvalue, -, -⟩ := forall_mem_types_iff.mp h
  refine ⟨rfl, rfl, rfl, rfl, rfl, rfl, hdeclaring,
    List.forall₂_same.mpr fun p hp => ⟨rfl, hparameters p hp⟩, ?_⟩
  cases hv : m.valueType with
  | none => exact .none
  | some t => exact .some (hvalue t hv)

/-- A member is its own image where nothing is replaced. -/
theorem of_isEmpty (hs : s.Formed) (hσ : σ.isEmpty) (m : Member) : m.ImageOf s σ m :=
  .self fun t _ => .self hs fun x p _ _ => by
    rw [Substitution.Sends, Substitution.lookup_of_isEmpty hσ]
    rfl

/-- **Two images of one member are related** as the images of its types are. -/
theorem between {τ υ : Substitution} {m'' : Member} (h : m.ImageOf s σ m')
    (h' : m.ImageOf s τ m'') (hbetween : ∀ t ∈ m.types, ∀ u v, Image s σ.Sends t u →
      Image s τ.Sends t v → Image s υ.Sends u v) : m'.ImageOf s υ m'' := by
  obtain ⟨hdeclaring, hparameters, hvalue, -, -⟩ := forall_mem_types_iff.mp hbetween
  refine ⟨h'.id_eq.trans h.id_eq.symm, h'.name_eq.trans h.name_eq.symm,
    h'.kind_eq.trans h.kind_eq.symm, h'.visibility_eq.trans h.visibility_eq.symm,
    h'.isStatic_eq.trans h.isStatic_eq.symm, h'.genericMethod_eq.trans h.genericMethod_eq.symm,
    hdeclaring _ _ h.declaringType h'.declaringType, ?_,
    rel_between h.valueType h'.valueType hvalue⟩
  refine forall₂_between h.parameters h'.parameters fun p hp q q' hq hq' => ⟨?_, ?_⟩
  · rw [hq'.1, hq.1]
  · exact hparameters p hp _ _ hq.2 hq'.2

/-- The generic parameters of a method do not matter. -/
theorem of_withGenericMethod {token : MethodToken} {ps : List TypeId} (hm : m.genericMethod.isSome)
    (h : (m.withGenericMethod token ps).ImageOf s σ m') : m.ImageOf s σ m' :=
  { h with genericMethod_eq := h.genericMethod_eq.trans hm.symm }

end Member.ImageOf

/-! ### Substitutions -/

/-- What a substitution does to the parameters of types is what another one does to them. -/
theorem Substitution.lookup_of_typePart_eq {σ τ : Substitution} (h : τ.typePart = σ.typePart)
    {p : GenericParameter} {d : TypeId} (hp : p.owner = .type d) : τ.lookup p = σ.lookup p := by
  simp only [typePart, Substitution.mk.injEq, and_true] at h
  rw [lookup_of_type hp, lookup_of_type hp, h.1, h.2]

/-! ### The parameters of a method -/

/-- **What becomes of the parameters of a method** under a substitution. -/
inductive Member.Rebound (m : Member) (σ : Substitution) (s s' : Store) :
    Member → Substitution → Prop
  /-- They are kept, unless the method is open and the substitution changes their constraints but is
  none of its own parameters. -/
  | kept : (∀ token, m.openMethod = some token → σ.methodOwner ≠ some token →
      ∀ c ∈ s.constraintsOf m.genericParameters, Image s σ.Sends c c) → Rebound m σ s s' m σ
  /-- They are made again, if the method is open, the substitution is none of its own parameters and
  it changes their constraints. The answer is an old one, or it belongs to a method that was not met
  before. -/
  | again {token fresh : MethodToken} {copies : List TypeId} :
      m.openMethod = some token → σ.methodOwner ≠ some token →
      (∃ c ∈ s.constraintsOf m.genericParameters, ¬ Image s σ.Sends c c) →
      s'.rebound.lookup ⟨token, σ.typeOwner, σ.typeArguments⟩ = some (fresh, copies) →
      (s.rebound.lookup ⟨token, σ.typeOwner, σ.typeArguments⟩ = some (fresh, copies) ∨
        s.nextMethod ≤ fresh.number ∧ copies.length = m.genericParameters.length) →
      Rebound m σ s s' (m.withGenericMethod fresh copies) (σ.withMethod token copies)

/-- The parameters of the method are kept if there is nothing to make again. -/
theorem Member.rebind_eq_pure {m : Member} {σ : Substitution} (h : m.openMethod = none ∨
    m.openMethod = σ.methodOwner ∨ m.genericParameters = []) : m.rebind σ = pure (m, σ) := by
  rw [rebind]
  split
  · rfl
  case h_2 token hopen =>
    split
    · rfl
    case isFalse hother =>
      rcases h with h | h | h
      · cases hopen.symm.trans h
      · exact absurd (h.symm.trans hopen) hother
      · rw [constraintsChange, h]
        rfl

/-- What is an image of the method with its parameters made again is one of the method. -/
theorem Member.Rebound.imageOf {m m₁ m' : Member} {σ σ₁ τ : Substitution} {s s₁ s₂ : Store}
    (h : m.Rebound σ s s₁ m₁ σ₁) (himage : m₁.ImageOf s₂ τ m') : m.ImageOf s₂ τ m' := by
  cases h with
  | kept => exact himage
  | again hopen =>
    exact himage.of_withGenericMethod (m.isSome_of_openMethod (by rw [hopen]; rfl))

section Along

variable {R : Store → Store → Prop} [Std.Refl R] [IsTrans Store R]
  (hstep : ∀ s s', Store.BuildStep s s' → R s s')

include hstep

theorem along_anyChanges (σ : Substitution) (ts : List TypeId) : Along R (anyChanges σ ts) := by
  induction ts with
  | nil => exact .pure _
  | cons t ts ih =>
    rw [anyChanges]
    refine (along_substitute hstep σ t).bind fun u => ?_
    split
    · exact ih
    · exact .pure _

theorem along_constraintsChange (m : Member) (σ : Substitution) :
    Along R (m.constraintsChange σ) :=
  .get_bind fun s => along_anyChanges hstep σ _ s

end Along

/-! ### The types of a member -/

/-- Replace every type of a member, whatever becomes of the parameters of its method. -/
def Member.replaceTypes (m : Member) (σ : Substitution) : TypeM Member := do
  let declaringType ← CallSite.substitute σ m.declaringType
  let parameters ← m.parameters.mapM (substituteParameter σ)
  let valueType ← m.valueType.mapM (CallSite.substitute σ)
  let genericArguments ← m.genericArguments.mapM (CallSite.substitute σ)
  return { m with declaringType, parameters, valueType, genericArguments }

theorem Member.substitute_eq (m : Member) (σ : Substitution) :
    m.substitute σ = m.rebind σ >>= fun found => found.1.replaceTypes found.2 :=
  rfl

theorem Member.along_replaceTypes {R : Store → Store → Prop} [Std.Refl R] [IsTrans Store R]
    (hstep : ∀ s s', Store.BuildStep s s' → R s s') (m : Member) (σ : Substitution) :
    Along R (m.replaceTypes σ) := by
  refine (along_substitute hstep σ _).bind fun _ => ?_
  refine (Along.mapM (fun p => (along_substitute hstep σ _).bind fun _ => .pure _) _).bind
    fun _ => ?_
  refine (Along.option_mapM (along_substitute hstep σ) _).bind fun _ => ?_
  exact (Along.mapM (along_substitute hstep σ) _).bind fun _ => .pure _

/-- To replace the types of a member keeps the records. -/
theorem Member.keepsRecords_replaceTypes {m m' : Member} {σ : Substitution} {s s' : Store}
    (hs : s.Formed) (hrun : m.replaceTypes σ s = .ok m' s') : s.KeepsRecords s' := by
  have hkeeps := Store.KeepsRecords.of_along hs fun hstep => along_replaceTypes hstep m σ
  rw [storeAfter_of_ok hrun] at hkeeps
  exact hkeeps

/-- To close a method is to replace its parameters in what it declares. -/
theorem Member.close_eq {m : Member} {token : MethodToken} {args : List TypeId}
    (hopen : m.openMethod = some token) (hlength : args.length = m.genericParameters.length) :
    m.close args = m.replaceTypes (.forMethod token args) >>= fun closed =>
      pure { closed with genericArguments := args } := by
  rw [close, hopen]
  dsimp only
  rw [if_neg (not_not.mpr hlength), substitute_eq, rebind_eq_pure (.inr (.inl hopen)), pure_bind]

/-- **Every type of a member is replaced**, and the parameters of its method are the same. -/
structure Member.Replaced (s : Store) (σ : Substitution) (m m' : Member) : Prop
    extends m.ImageOf s σ m' where
  /-- The method is the same. -/
  genericMethod_same : m'.genericMethod = m.genericMethod
  /-- The parameters of the method are the same. -/
  genericParameters_same : m'.genericParameters = m.genericParameters
  /-- Each argument of the method is replaced. -/
  genericArguments : List.Forall₂ (Image s σ.Sends) m.genericArguments m'.genericArguments

/-- A method that is open stays open while its types are replaced. -/
theorem Member.Replaced.openMethod_eq {s : Store} {σ : Substitution} {m m' : Member}
    (h : m.Replaced s σ m') : m'.openMethod = m.openMethod := by
  have hempty : m'.genericArguments.isEmpty = m.genericArguments.isEmpty := by
    have harguments := h.genericArguments
    generalize m.genericArguments = as at harguments
    generalize m'.genericArguments = bs at harguments
    cases harguments <;> rfl
  rw [openMethod, openMethod, hempty, h.genericMethod_same]

section Substitute

variable {s : Store} {σ : Substitution} (hs : s.WellFormed) (hσ : σ.HeldBy s)

include hs hσ

theorem builds_anyChanges {ts : List TypeId} (hts : ∀ t ∈ ts, s.Holds t) :
    Builds (anyChanges σ ts) s fun changes _ =>
      changes = true ↔ ∃ t ∈ ts, ¬ Image s σ.Sends t t := by
  induction ts generalizing s with
  | nil => exact .pure hs ⟨fun h => absurd h Bool.false_ne_true, fun ⟨_, ht, _⟩ => nomatch ht⟩
  | cons t ts ih =>
    have ht := hts t List.mem_cons_self
    rw [anyChanges]
    refine (builds_substitute hs ht hσ).bind hs fun u s' hgrown hu => ?_
    have hext := hgrown.toExtends
    -- What is known of a type that was there before does not depend on what was added since.
    have hsame : ∀ t', s.Holds t' → (Image s' σ.Sends t' t' ↔ Image s σ.Sends t' t') :=
      fun t' ht' => ⟨.of_extended hs.toFormed hext ht' ht', .of_extends hs.toFormed hext ht' ht'⟩
    split
    case isTrue heq =>
      obtain rfl := heq
      have hts' : ∀ t' ∈ ts, s.Holds t' := fun t' ht' => hts t' (List.mem_cons_of_mem _ ht')
      refine (ih hgrown.wellFormed (hσ.of_extends hext) fun t' ht' =>
        hgrown.holds (hts' t' ht')).imp fun changes s'' _ hchanges => hchanges.trans ?_
      rw [List.exists_mem_cons_iff, ← hsame u ht, or_iff_right (not_not.mpr hu.2)]
      exact exists_congr fun t' => and_congr_right fun ht' => not_congr (hsame t' (hts' t' ht'))
    case isFalse hne =>
      refine .pure hgrown.wellFormed (iff_of_true rfl ⟨t, List.mem_cons_self, fun himage => hne ?_⟩)
      have himage' := (hsame t ht).mpr himage
      exact hu.2.unique_of_sends hgrown.wellFormed.toFormed himage'

theorem builds_constraintsChange (m : Member) :
    Builds (m.constraintsChange σ) s fun changes _ =>
      changes = true ↔ ∃ c ∈ s.constraintsOf m.genericParameters, ¬ Image s σ.Sends c c :=
  .get_bind (builds_anyChanges hs hσ fun _ ht => hs.holds_constraintsOf ht)

variable {m : Member} (hm : m.HeldBy s)

include hm

/-- **The parameters of a method are made again** or are kept. -/
theorem builds_memberRebind : Builds (m.rebind σ) s fun found s' =>
    found.1.HeldBy s' ∧ found.2.HeldBy s' ∧ m.Rebound σ s s' found.1 found.2 := by
  rw [Member.rebind]
  split
  case h_1 hopen =>
    refine .pure hs ⟨hm, hσ, .kept fun token htoken => ?_⟩
    cases hopen.symm.trans htoken
  case h_2 token htoken =>
    split
    case isTrue hown =>
      refine .pure hs ⟨hm, hσ, .kept fun token' htoken' hother => absurd ?_ hother⟩
      rw [hown, ← htoken, htoken']
    case isFalse hother =>
    refine (builds_constraintsChange hs hσ m).ran.bind hs fun changes s' hgrown hchanges => ?_
    obtain ⟨hran, hchanges⟩ := hchanges
    have hsame := along_constraintsChange (fun _ _ => Store.SameTables.of_step) m σ s
    rw [storeAfter_of_ok hran] at hsame
    have hσ' := hσ.of_extends hgrown.toExtends
    have hm' := hm.of_extends hgrown.toExtends
    split
    case isTrue htrue =>
      refine (builds_rebind hgrown.wellFormed m.genericParameters token hσ').ran.bind
        hgrown.wellFormed fun found s'' hgrown' hfound => ?_
      obtain ⟨hrun, hfound⟩ := hfound
      refine .pure hgrown'.wellFormed ⟨?_, ?_, ?_⟩
      · exact (hm'.of_extends hgrown'.toExtends).withGenericMethod _ hfound
      · exact (hσ'.of_extends hgrown'.toExtends).withMethod token hfound
      · have hanswer := answer_of_rebind hrun
        rw [hsame.rebound_eq, hsame.nextMethod_eq] at hanswer
        exact .again htoken hother (hchanges.mp htrue) (lookup_of_rebind hrun) hanswer
    case isFalse hfalse =>
      refine .pure hgrown.wellFormed ⟨hm', hσ', .kept fun _ _ _ c hc => ?_⟩
      exact not_not.mp fun hne => hfalse (hchanges.mpr ⟨c, hc, hne⟩)

/-- Each type of a member is replaced. -/
theorem builds_replaceTypes : Builds (m.replaceTypes σ) s fun m' s' =>
    m'.HeldBy s' ∧ m.Replaced s' σ m' := by
  -- What is known of a type and its image persists.
  have hmono : ∀ t u s' s'', s'.Grown s'' → s'.WellFormed →
      (s'.Holds t ∧ s'.Holds u ∧ Image s' σ.Sends t u) →
      s''.Holds t ∧ s''.Holds u ∧ Image s'' σ.Sends t u :=
    fun _ _ _ _ hgrown hs' ⟨ht, hu, himage⟩ => ⟨hgrown.holds ht, hgrown.holds hu,
      himage.of_extends hs'.toFormed hgrown.toExtends ht hu⟩
  have hstep : ∀ {s' t}, s.Grown s' → s.Holds t → Builds (substitute σ t) s' fun u s'' =>
      s''.Holds t ∧ s''.Holds u ∧ Image s'' σ.Sends t u := fun hgrown ht =>
    (builds_substitute hgrown.wellFormed (hgrown.holds ht) (hσ.of_extends hgrown.toExtends)).imp
      fun _ _ hgrown' hu => ⟨hgrown'.holds (hgrown.holds ht), hu⟩
  obtain ⟨hdeclaring, hparameters, hvalue, hgeneric, harguments⟩ := Member.heldBy_iff.mp hm
  refine (hstep (.refl hs) hdeclaring).bind hs fun declaring s₁ h₁ hd => ?_
  refine (Builds.mapM (P := fun (p p' : Parameter) s' => p' = { p with type := p'.type } ∧
      s'.Holds p.type ∧ s'.Holds p'.type ∧ Image s' σ.Sends p.type p'.type) h₁.wellFormed
    (fun p p' s' s'' hgrown hs' h => ⟨h.1, hmono _ _ _ _ hgrown hs' h.2⟩) _
    fun p hp s' hgrown => ?_).bind h₁.wellFormed fun ps s₂ h₂ hps => ?_
  · exact (hstep (h₁.trans hgrown) (hparameters p hp)).bind hgrown.wellFormed
      fun u s'' hgrown' hu => .pure hgrown'.wellFormed ⟨rfl, hu⟩
  have h₁₂ := h₁.trans h₂
  refine (Builds.option_mapM h₂.wellFormed _ fun t ht => hstep h₁₂ (hvalue t ht)).bind
    h₂.wellFormed fun value s₃ h₃ hv => ?_
  have h₁₃ := h₁₂.trans h₃
  refine (Builds.mapM h₃.wellFormed hmono _ fun t ht s' hgrown =>
    hstep (h₁₃.trans hgrown) (harguments t ht)).bind h₃.wellFormed fun args s₄ h₄ hargs => ?_
  have hd' := hmono _ _ _ _ ((h₂.trans h₃).trans h₄) h₁.wellFormed hd
  have hps' := hps.imp fun p p' h => And.intro h.1 (hmono _ _ _ _ (h₃.trans h₄) h₂.wellFormed h.2)
  have hv' := rel_imp_of_mem hv fun t u _ _ h => hmono t u _ _ h₄ h₃.wellFormed h
  refine .pure h₄.wellFormed ⟨Member.heldBy_iff.mpr ⟨hd'.2.1, fun p' hp' => ?_, fun u hu => ?_,
    fun t ht => (h₁₃.trans h₄).holds (hgeneric t ht), fun u hu => ?_⟩,
    ⟨⟨rfl, rfl, rfl, rfl, rfl, rfl, hd'.2.2, hps'.imp fun _ _ h => ⟨h.1, h.2.2.2⟩,
      rel_imp_of_mem hv' fun _ _ _ _ h => h.2.2⟩, rfl, rfl, hargs.imp fun _ _ h => h.2.2⟩⟩
  · obtain ⟨p, -, h⟩ := exists_mem_of_forall₂_right hps' hp'
    exact h.2.2.1
  · obtain rfl : value = some u := hu
    generalize m.valueType = o at hv'
    cases hv' with
    | some h => exact h.2.1
  · obtain ⟨t, -, h⟩ := exists_mem_of_forall₂_right hargs hu
    exact h.2.1

/-- **A member under a substitution is an image of the member.** The substitution is the one that
was asked for, unless the parameters of an open method were made again. -/
theorem builds_memberSubstitute : Builds (m.substitute σ) s fun m' s' =>
    m'.HeldBy s' ∧ ∃ τ : Substitution, τ.typePart = σ.typePart ∧
      (m.openMethod = none ∨ m.openMethod = σ.methodOwner → τ = σ) ∧ m.ImageOf s' τ m' := by
  rw [Member.substitute_eq]
  refine (builds_memberRebind hs hσ hm).bind hs fun rebound s₁ h₁ hrebound => ?_
  obtain ⟨m₁, τ⟩ := rebound
  obtain ⟨hm₁, hτ, hrebound⟩ := hrebound
  refine (builds_replaceTypes h₁.wellFormed hτ hm₁).imp fun m' s' _ hreplaced => ?_
  obtain ⟨hm', hreplaced⟩ := hreplaced
  refine ⟨hm', τ, ?_, ?_, hrebound.imageOf hreplaced.toImageOf⟩
  · cases hrebound <;> rfl
  · rintro h
    cases hrebound with
    | kept => rfl
    | again hopen hother =>
      rcases h with h | h
      · cases hopen.symm.trans h
      · exact absurd (h.symm.trans hopen) hother

/-! ### Methods that are closed -/

omit hσ in
/-- **A generic method is given its arguments.** -/
theorem builds_close {token : MethodToken} {args : List TypeId} (hopen : m.openMethod = some token)
    (hargs : ∀ a ∈ args, s.Holds a) (hlength : args.length = m.genericParameters.length) :
    Builds (m.close args) s fun m' s' => m'.HeldBy s' ∧ m.ImageOf s' (.forMethod token args) m' ∧
      m'.genericArguments = args ∧ m'.genericParameters = m.genericParameters ∧
      s.KeepsRecords s' := by
  rw [Member.close_eq hopen hlength]
  refine (builds_replaceTypes hs (.forMethod token hargs) hm).ran.bind hs fun c s' hgrown hc =>
    .pure hgrown.wellFormed ?_
  obtain ⟨hran, hc, hreplaced⟩ := hc
  obtain ⟨hdeclaring, hparameters, hvalue, hgeneric, -⟩ := Member.heldBy_iff.mp hc
  exact ⟨Member.heldBy_iff.mpr ⟨hdeclaring, hparameters, hvalue, hgeneric,
    fun a ha => hgrown.holds (hargs a ha)⟩, { hreplaced with }, rfl,
    hreplaced.genericParameters_same, Member.keepsRecords_replaceTypes hs.toFormed hran⟩

omit hσ in
/-- **A generic method that is given its arguments** is the image of the open one. -/
theorem imageOf_of_close {token : MethodToken} {args : List TypeId} {m' : Member} {s' : Store}
    (hargs : ∀ a ∈ args, s.Holds a) (hopen : m.openMethod = some token)
    (h : m.close args s = .ok m' s') :
    s.Grown s' ∧ m'.HeldBy s' ∧ m.ImageOf s' (.forMethod token args) m' := by
  by_cases hlength : args.length = m.genericParameters.length
  · obtain ⟨hgrown, -, hheld, himage, -⟩ := (builds_close hs hm hopen hargs hlength).of_ok h
    exact ⟨hgrown, hheld, himage⟩
  · rw [Member.close, hopen] at h
    dsimp only at h
    rw [if_pos hlength] at h
    cases h

end Substitute

/-- What is recorded of methods stays right when the parameters of a method are made again for what
is put in place of the parameters of a type. -/
theorem Store.Recorded.memberRebind {s s' : Store} (h : s.Recorded) (hs : s.WellFormed) {m : Member}
    {d : TypeId} {as : List TypeId} (has : ∀ a ∈ as, s.Holds a) {found : Member × Substitution}
    (hrun : m.rebind (.forType d as) s = .ok found s') : s'.Recorded := by
  cases hopen : m.openMethod with
  | none =>
    rw [Member.rebind_eq_pure (.inl hopen)] at hrun
    obtain ⟨-, rfl⟩ := of_pure_eq_ok hrun
    exact h
  | some token =>
    have howner : (Substitution.forType d as).methodOwner ≠ some token :=
      (Option.some_ne_none token).symm
    rw [Member.rebind, hopen] at hrun
    dsimp only at hrun
    rw [if_neg howner] at hrun
    obtain ⟨changes, s₁, hchanges, hrun⟩ := exists_of_bind_eq_ok hrun
    obtain ⟨hgrown, -⟩ := (builds_constraintsChange hs (.forType has) m).of_ok hchanges
    have hkeeps : s.KeepsRecords (storeAfter (m.constraintsChange (.forType d as)) s) :=
      .of_along hs.toFormed fun hstep => along_constraintsChange hstep m (.forType d as)
    rw [storeAfter_of_ok hchanges] at hkeeps
    split at hrun
    · obtain ⟨found', s₂, hrebind, hrun⟩ := exists_of_bind_eq_ok hrun
      obtain ⟨-, rfl⟩ := of_pure_eq_ok hrun
      have hafter := (hkeeps.recorded h).rebind hgrown.wellFormed token m.genericParameters
        (σ := .forType d as) fun _ a ha => hgrown.holds (has a ha)
      rw [storeAfter_of_ok hrebind] at hafter
      exact hafter
    · obtain ⟨-, rfl⟩ := of_pure_eq_ok hrun
      exact hkeeps.recorded h

/-! ### Members of a type -/

/-- **A member is what a registered member is on a type**: itself, if the type was not constructed,
and else an image of it. The substitution is the one that the type stands for, but for the
parameters of a generic method. -/
inductive Member.OnType (s : Store) (t : TypeId) (m : Member) : Member → Prop
  /-- On a type that was not constructed. -/
  | registered : (s.info t).definition = none → OnType s t m m
  /-- On a constructed type. -/
  | instantiated {d : TypeId} {τ : Substitution} {m' : Member} :
      (s.info t).definition = some d → τ.typePart = .forType d (s.info t).arguments →
      (m.openMethod = none → τ = .forType d (s.info t).arguments) → m.ImageOf s τ m' →
      OnType s t m m'

namespace Member.OnType

variable {s s' : Store} {t : TypeId} {m m' : Member}

theorem of_extends (h : m.OnType s t m') (hs : s.Formed) (hext : s.Extends s') (ht : s.Holds t)
    (hm : m.HeldBy s) (hm' : m'.HeldBy s) : m.OnType s' t m' := by
  cases h with
  | registered hdef => exact .registered (by rw [hext.info_eq ht]; exact hdef)
  | instantiated hdef hpart hτ himage =>
    rw [← hext.info_eq ht] at hdef hpart hτ
    exact .instantiated hdef hpart hτ (himage.of_extends hs hext hm hm')

/-- It is an image of what is registered. -/
theorem imageOf (h : m.OnType s t m') (hs : s.Formed) : ∃ τ : Substitution, m.ImageOf s τ m' := by
  cases h with
  | registered => exact ⟨{}, .of_isEmpty hs rfl m⟩
  | instantiated _ _ _ himage => exact ⟨_, himage⟩

/-- **The declaring type of a member on a type is that type**, if the member is registered on what
the type was constructed from. -/
theorem declaringType_eq (h : m.OnType s t m') (hs : s.Formed) (hm : m.declaringType = s.head t) :
    m'.declaringType = t := by
  cases h with
  | registered hdef =>
    rw [hm, Store.head, hdef]
    rfl
  | @instantiated d τ _ hdef hpart _ himage =>
    have ht := hs.isConstructed hdef
    have hu := himage.declaringType
    rw [hm, ht.head_eq] at hu
    -- A definition mentions its own parameters only, so nothing else is replaced in it.
    refine hu.unique hs (ht.image_definition hs) fun x p y y' hx hp hy hy' => ?_
    obtain ⟨shape, own, hown, -⟩ := ht.form_definition hs
    obtain ⟨k, hk⟩ := hs.mentions_definition hown hx
    obtain ⟨p', hp', howner, -⟩ := TypeInfo.form_eq_parameter_iff.mp (hs.own_parameter hown hk)
    obtain rfl := Shape.parameter.inj (hp.symm.trans hp')
    rw [Substitution.Sends, Substitution.lookup_of_typePart_eq
      (σ := .forType d (s.info t).arguments) hpart howner] at hy
    exact hy.trans hy'.symm

end Member.OnType

end CallSite
