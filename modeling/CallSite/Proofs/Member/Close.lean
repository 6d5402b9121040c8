import CallSite.Proofs.Member.Image
import CallSite.Proofs.Type.Compose

/-!
# A generic method on a constructed type

A generic method of a generic type can be given its arguments first and then be seen on a
constructed type, or it can be seen on the constructed type first and then be given the arguments,
with the parameters of the type replaced in them. Both ways replace every type of the method at once
by the same substitution (`Member.ClosedOn`), so they lead to the same types
(`Member.ClosedOn.sameTypes`).

The second way may make the parameters of the method again, because the type replaces something in
their constraints. The copies then stand in for the parameters for one moment: they are put in place
of them, and the arguments in place of the copies. This is as good as to replace the parameters
directly where nothing else mentions the copies. What the type is constructed from is older than the
copies (`Store.Recorded.older`), and the method mentions none of them unless they were made earlier
and it was declared with them (`Member.FitsAnswer`).

* `Image.close_substitute`, `Image.substitute_close` – each way, for one type.
* `Member.Rebound.closes` – the method can be closed, whatever became of its parameters.
* `CallSite.builds_closeThenSubstitute`, `CallSite.builds_substituteThenClose` – each way, for a
  method.
* `CallSite.close_substitute_comm` – both ways lead to the same types.
-/

namespace CallSite

open Substitution (forType forMethod)

/-! ### Each way for one type -/

namespace Substitution

variable {p : GenericParameter} {σ : Substitution} {m : MethodToken} {bs : List TypeId}

theorem lookup_withMethod_of_type {d : TypeId} (hp : p.owner = .type d) :
    (σ.withMethod m bs).lookup p = σ.lookup p :=
  lookup_of_typePart_eq (τ := σ.withMethod m bs) (σ := σ) rfl hp

theorem lookup_withMethod_of_method {m' : MethodToken} (hp : p.owner = .method m') :
    (σ.withMethod m bs).lookup p = (forMethod m bs).lookup p := by
  rw [lookup_of_method hp, lookup_of_method hp]
  rfl

end Substitution

section Types

variable {s : Store} (hs : s.Formed) {d : TypeId} {as bs bs' : List TypeId}
  {token fresh : MethodToken} {t u v : TypeId}

include hs

/-- A type that avoids a method stays when the parameters of the method are replaced. -/
theorem Image.eq_of_avoidsMethod (havoids : s.AvoidsMethod fresh u)
    (h : Image s (forMethod fresh bs).Sends u v) : v = u := by
  refine h.eq_self hs fun x p y hx hp hy => ?_
  have howner : p.owner ≠ .method fresh := fun howner =>
    havoids x p.position hx ((TypeInfo.form_of_parameter hp).trans (by rw [howner]))
  rw [Substitution.Sends, Substitution.lookup_forMethod_of_ne howner] at hy
  exact hy

/-- **First the parameters of the method and then those of the type.** What replaced the former is
replaced as well. -/
theorem Image.close_substitute (hbs : List.Forall₂ (s.Replaces (forType d as)) bs bs')
    (h : Image s (forMethod token bs).Sends t u) (h' : Image s (forType d as).Sends u v) :
    Image s ((forType d as).withMethod token bs').Sends t v := by
  have hreplaced : (forMethod token bs).ReplacedBy s (forType d as) (forMethod token bs') :=
    ⟨rfl, rfl, .nil, hbs⟩
  refine h.comp hs h' fun x p y z _ hp hy hz => ?_
  rw [Substitution.Sends] at hy ⊢
  cases howner : p.owner with
  | type d' =>
    rw [Substitution.lookup_forMethod_of_ne (howner ▸ Owner.noConfusion)] at hy
    obtain rfl : y = x := hy
    rw [Substitution.lookup_withMethod_of_type howner]
    exact (Image.parameter_iff hp).mp hz
  | method m =>
    rw [Substitution.lookup_withMethod_of_method howner]
    have hrel := hreplaced.lookup_rel p
    revert hy
    generalize (forMethod token bs).lookup p = o at hrel ⊢
    generalize (forMethod token bs').lookup p = o' at hrel ⊢
    intro hy
    cases hrel with
    | none =>
      obtain rfl : y = x := hy
      have hz := (Image.parameter_iff hp).mp hz
      rw [Substitution.Sends, Substitution.lookup_forType_of_ne (howner ▸ Owner.noConfusion)] at hz
      exact hz
    | some hb =>
      obtain rfl := hy
      exact hz.unique_of_sends hs hb.2.2

/-- **First the parameters of the type and then those of the method**, or of what stands in for it.
It is left to say what becomes of the parameters of methods. -/
theorem Image.substitute_close {σ : Substitution} (hσ : σ.typePart = forType d as)
    (has : ∀ a ∈ as, s.AvoidsMethod fresh a) (h : Image s σ.Sends t u)
    (h' : Image s (forMethod fresh bs).Sends u v)
    (hmethod : ∀ x p m z, s.Mentions t x → (s.info x).shape = .parameter p → p.owner = .method m →
      Image s (forMethod fresh bs).Sends ((σ.lookup p).getD x) z →
        z = (((forType d as).withMethod token bs).lookup p).getD x) :
    Image s ((forType d as).withMethod token bs).Sends t v := by
  refine h.comp hs h' fun x p y z hx hp hy hz => ?_
  rw [Substitution.Sends] at hy ⊢
  cases howner : p.owner with
  | type d' =>
    rw [Substitution.lookup_of_typePart_eq (τ := σ) (σ := forType d as) hσ howner] at hy
    rw [Substitution.lookup_withMethod_of_type howner, ← hy]
    refine Image.eq_of_avoidsMethod hs ?_ hz
    -- What replaces a parameter of the type is an argument, or the parameter itself.
    cases hlookup : (forType d as).lookup p with
    | none =>
      rw [hlookup] at hy
      obtain rfl : y = x := hy
      intro q k hq hf
      obtain rfl := hq.eq_of_parameter hp
      rw [Store.form, TypeInfo.form_of_parameter hp, howner] at hf
      cases hf
    | some a =>
      rw [hlookup] at hy
      obtain rfl : y = a := hy
      rw [Substitution.lookup_of_type howner] at hlookup
      split at hlookup
      · exact has y (List.mem_of_getElem? hlookup)
      · cases hlookup
  | method m => exact hmethod x p m z hx hp howner (hy ▸ hz)

/-- Each way meets at the substitution of both: the parameters of the method are kept. -/
theorem Image.substitute_close_kept (has : ∀ a ∈ as, s.AvoidsMethod token a)
    (h : Image s (forType d as).Sends t u) (h' : Image s (forMethod token bs).Sends u v) :
    Image s ((forType d as).withMethod token bs).Sends t v := by
  refine h.substitute_close hs rfl has h' fun x p m z _ hp howner hz => ?_
  rw [Substitution.lookup_forType_of_ne (howner ▸ Owner.noConfusion), Option.getD_none] at hz
  rw [Substitution.lookup_withMethod_of_method howner]
  exact (Image.parameter_iff hp).mp hz

/-- The parameters of the method are made again: its copies are put in place of them, and the
arguments in place of the copies. -/
theorem Image.substitute_close_again {copies : List TypeId} (has : ∀ a ∈ as, s.AvoidsMethod fresh a)
    (ht : s.AvoidsMethod fresh t) (hlength : copies.length = bs.length)
    (hcopies : ∀ {k : Nat} {c : TypeId}, copies[k]? = some c →
      s.form c = .parameter (.method fresh) k)
    (h : Image s ((forType d as).withMethod token copies).Sends t u)
    (h' : Image s (forMethod fresh bs).Sends u v) :
    Image s ((forType d as).withMethod token bs).Sends t v := by
  refine h.substitute_close hs rfl has h' fun x p m z hx hp howner hz => ?_
  rw [Substitution.lookup_withMethod_of_method howner] at hz ⊢
  by_cases hm : m = token
  swap
  · -- Another method, but not the one that the copies belong to.
    have hne : p.owner ≠ .method token := fun h => hm (Owner.method.inj (howner.symm.trans h))
    rw [Substitution.lookup_forMethod_of_ne hne, Option.getD_none] at hz ⊢
    exact Image.eq_of_avoidsMethod hs (ht.of_mentions hx) hz
  subst hm
  rw [Substitution.lookup_forMethod howner] at hz ⊢
  cases hc : copies[p.position]? with
  | some c =>
    rw [hc, Option.getD_some] at hz
    obtain ⟨q, hq, hqowner, hqposition⟩ := TypeInfo.form_eq_parameter_iff.mp (hcopies hc)
    have hz := (Image.parameter_iff hq).mp hz
    rw [Substitution.Sends, Substitution.lookup_forMethod hqowner, hqposition] at hz
    obtain ⟨hlt, -⟩ := List.getElem?_eq_some_iff.mp hc
    rw [List.getElem?_eq_getElem (hlength ▸ hlt)] at hz ⊢
    exact hz
  | none =>
    rw [hc, Option.getD_none] at hz
    rw [List.getElem?_eq_none (hlength ▸ List.getElem?_eq_none_iff.mp hc)]
    exact Image.eq_of_avoidsMethod hs (ht.of_mentions hx) hz

end Types

/-! ### The types of a member -/

namespace Member

variable {m m' m'' : Member} {s s' : Store}

/-- **What a member declares**: its declaring type, the types of its parameters and that of its
value. -/
def signature (m : Member) : List TypeId :=
  m.declaringType :: (m.parameters.map Parameter.type ++ m.valueType.toList)

theorem forall_mem_signature_iff {P : TypeId → Prop} : (∀ t ∈ m.signature, P t) ↔
    P m.declaringType ∧ (∀ p ∈ m.parameters, P p.type) ∧ ∀ t, m.valueType = some t → P t := by
  simp [signature, or_imp, forall_and]

theorem HeldBy.signature (h : m.HeldBy s) : ∀ t ∈ m.signature, s.Holds t := by
  obtain ⟨hdeclaring, hparameters, hvalue, -, -⟩ := heldBy_iff.mp h
  exact forall_mem_signature_iff.mpr ⟨hdeclaring, hparameters, hvalue⟩

/-- **Two members have the same types.** -/
structure SameTypes (m m' : Member) : Prop where
  /-- The declaring type. -/
  declaringType_eq : m'.declaringType = m.declaringType
  /-- The parameters with their types. -/
  parameters_eq : m'.parameters = m.parameters
  /-- The type of the value. -/
  valueType_eq : m'.valueType = m.valueType
  /-- The arguments of a generic method. -/
  genericArguments_eq : m'.genericArguments = m.genericArguments

namespace ImageOf

variable {σ τ υ : Substitution}

/-- **The image of an image** is an image of the member where this holds of each of its types. -/
theorem comp (h : m.ImageOf s σ m') (h' : m'.ImageOf s τ m'')
    (hcomp : ∀ t ∈ m.signature, ∀ u v, Image s σ.Sends t u → Image s τ.Sends u v →
      Image s υ.Sends t v) : m.ImageOf s υ m'' := by
  obtain ⟨hdeclaring, hparameters, hvalue⟩ := forall_mem_signature_iff.mp hcomp
  refine ⟨h'.id_eq.trans h.id_eq, h'.name_eq.trans h.name_eq, h'.kind_eq.trans h.kind_eq,
    h'.visibility_eq.trans h.visibility_eq, h'.isStatic_eq.trans h.isStatic_eq,
    h'.genericMethod_eq.trans h.genericMethod_eq, hdeclaring _ _ h.declaringType h'.declaringType,
    ?_, ?_⟩
  · refine forall₂_comp h.parameters h'.parameters fun p hp q r hq hr => ⟨?_, ?_⟩
    · rw [hr.1, hq.1]
    · exact hparameters p hp _ _ hq.2 hr.2
  · have hv := h.valueType
    have hv' := h'.valueType
    generalize m.valueType = o at hv hvalue
    generalize m'.valueType = o' at hv hv'
    generalize m''.valueType = o'' at hv'
    cases hv with
    | none =>
      cases hv'
      exact .none
    | some huv =>
      cases hv' with
      | some hvw => exact .some (hvalue _ rfl _ _ huv hvw)

/-- **The image is determined** in what the member declares. -/
theorem unique (hs : s.Formed) (h : m.ImageOf s σ m') (h' : m.ImageOf s σ m'') :
    m''.declaringType = m'.declaringType ∧ m''.parameters = m'.parameters ∧
      m''.valueType = m'.valueType := by
  refine ⟨h'.declaringType.unique_of_sends hs h.declaringType, ?_, ?_⟩
  · refine List.right_unique_forall₂' (fun p q r hq hr => ?_) h'.parameters h.parameters
    rw [hq.1, hr.1, hq.2.unique_of_sends hs hr.2]
  · have hv := h.valueType
    have hv' := h'.valueType
    generalize m.valueType = o at hv hv'
    generalize m'.valueType = o' at hv ⊢
    generalize m''.valueType = o'' at hv' ⊢
    cases hv with
    | none =>
      cases hv'
      rfl
    | some hu =>
      cases hv' with
      | some hv => rw [hv.unique_of_sends hs hu]

end ImageOf

/-- **A method is closed on a type**: its arguments have the parameters of the type replaced, and
every type that it declares has those of the type and of the method replaced at once. -/
structure ClosedOn (s : Store) (d : TypeId) (as : List TypeId) (token : MethodToken)
    (bs : List TypeId) (m m' : Member) : Prop where
  /-- The arguments. -/
  arguments : List.Forall₂ (s.Replaces (forType d as)) bs m'.genericArguments
  /-- What the method declares. -/
  image : m.ImageOf s ((forType d as).withMethod token m'.genericArguments) m'

namespace ClosedOn

variable {d : TypeId} {as bs : List TypeId} {token : MethodToken}

theorem of_extends (h : m.ClosedOn s d as token bs m') (hs : s.Formed) (hext : s.Extends s')
    (hm : m.HeldBy s) (hm' : m'.HeldBy s) : m.ClosedOn s' d as token bs m' :=
  ⟨h.arguments.imp fun _ _ hr => hr.of_extends hs hext, h.image.of_extends hs hext hm hm'⟩

/-- **A method is closed on a type in one way only.** -/
theorem sameTypes (hs : s.Formed) (h : m.ClosedOn s d as token bs m')
    (h' : m.ClosedOn s d as token bs m'') : m'.SameTypes m'' := by
  have harguments : m''.genericArguments = m'.genericArguments :=
    List.right_unique_forall₂' (fun _ _ _ hu hv => hu.2.2.unique_of_sends hs hv.2.2) h'.arguments
      h.arguments
  have himage := h'.image
  rw [harguments] at himage
  obtain ⟨hdeclaring, hparameters, hvalue⟩ := h.image.unique hs himage
  exact ⟨hdeclaring, hparameters, hvalue, harguments⟩

end ClosedOn

end Member

/-! ### Methods that can be closed -/

namespace Member

variable {m : Member} {s s' : Store} {token : MethodToken} {as bs : List TypeId}

/-- **A method can be closed on a type**: it is open, it is given one argument for each of its
parameters, and what the type is constructed from mentions none of these. -/
structure Closable (m : Member) (s : Store) (token : MethodToken) (as bs : List TypeId) : Prop where
  /-- The types of the method are held. -/
  held : m.HeldBy s
  /-- The method is open. -/
  open_eq : m.openMethod = some token
  /-- What the type is constructed from. -/
  typeArguments : ∀ a ∈ as, s.Holds a ∧ s.AvoidsMethod token a
  /-- What the method is given. -/
  arguments : ∀ b ∈ bs, s.Holds b
  /-- The method is given as much as it has parameters. -/
  length_eq : bs.length = m.genericParameters.length

namespace Closable

theorem holds_typeArguments (h : m.Closable s token as bs) : ∀ a ∈ as, s.Holds a :=
  fun a ha => (h.typeArguments a ha).1

theorem of_extends (h : m.Closable s token as bs) (hs : s.Formed) (hext : s.Extends s') :
    m.Closable s' token as bs where
  held := h.held.of_extends hext
  open_eq := h.open_eq
  typeArguments a ha :=
    ⟨hext.holds (h.holds_typeArguments a ha),
      (h.typeArguments a ha).2.of_extends hs hext (h.holds_typeArguments a ha)⟩
  arguments b hb := hext.holds (h.arguments b hb)
  length_eq := h.length_eq

end Closable

/-- **The member fits what was made of its method before**: where a substitution changes the
constraints of the method and the parameters were made again for that substitution already, there is
one for each parameter of the method, and the member declares none of them. -/
def FitsAnswer (m : Member) (s : Store) (token : MethodToken) (σ : Substitution) : Prop :=
  (∃ c ∈ s.constraintsOf m.genericParameters, ¬ Image s σ.Sends c c) →
    ∀ fresh copies, s.rebound.lookup ⟨token, σ.typeOwner, σ.typeArguments⟩ = some (fresh, copies) →
      copies.length = m.genericParameters.length ∧ ∀ t ∈ m.signature, s.AvoidsMethod fresh t

/-- A member still fits while the store grows and answers no request. -/
theorem FitsAnswer.of_extends {σ : Substitution} (h : m.FitsAnswer s token σ) (hs : s.WellFormed)
    (hext : s.Extends s') (hrebound : s'.rebound = s.rebound) (hm : m.HeldBy s) :
    m.FitsAnswer s' token σ := by
  obtain ⟨-, -, -, hgeneric, -⟩ := heldBy_iff.mp hm
  rintro ⟨c, hc, hchange⟩ fresh copies hlookup
  rw [Store.constraintsOf_of_extends hext hgeneric] at hc
  rw [hrebound] at hlookup
  have hheld := hs.holds_constraintsOf hc
  obtain ⟨hlength, havoids⟩ := h ⟨c, hc, fun himage =>
    hchange (himage.of_extends hs.toFormed hext hheld hheld)⟩ fresh copies hlookup
  exact ⟨hlength, fun t ht => (havoids t ht).of_extends hs.toFormed hext (hm.signature t ht)⟩

end Member

/-! ### What becomes of the parameters of the method -/

/-- **To replace parameters first and those of one method then** is to replace the parameters of the
type and of the method at once, in what the member declares. -/
def Member.ClosesBy (m : Member) (s : Store) (d : TypeId) (as : List TypeId) (token : MethodToken)
    (σ : Substitution) (fresh : MethodToken) : Prop :=
  ∀ s' bs, s'.Formed → s.Extends s' → bs.length = m.genericParameters.length →
    ∀ t ∈ m.signature, ∀ u v, Image s' σ.Sends t u → Image s' (forMethod fresh bs).Sends u v →
      Image s' ((forType d as).withMethod token bs).Sends t v

/-- **Whatever became of the parameters of the method**, it is still open with as many of them, and
it can be closed by them. -/
theorem Member.Rebound.closes {s s₁ : Store} {d : TypeId} {as bs : List TypeId}
    {token : MethodToken} {σ : Substitution} {m m₁ : Member}
    (h : m.Rebound (forType d as) s s₁ m₁ σ) (hs : s.Formed)
    (hs₁ : s₁.Formed) (hext : s.Extends s₁) (hrecorded : s.Recorded) (hrecorded₁ : s₁.Recorded)
    (hm : m.Closable s token as bs) (hfits : m.FitsAnswer s token (forType d as)) :
    ∃ fresh, m₁.openMethod = some fresh ∧
      m₁.genericParameters.length = m.genericParameters.length ∧
      m.ClosesBy s₁ d as token σ fresh := by
  cases h with
  | kept =>
    refine ⟨token, hm.open_eq, rfl, fun s₂ _ hs₂ hext₂ _ t _ u v h h' => ?_⟩
    refine h.substitute_close_kept hs₂ (fun a ha => ?_) h'
    obtain ⟨hheld, havoids⟩ := hm.typeArguments a ha
    exact havoids.of_extends hs (hext.trans hext₂) hheld
  | @again token' fresh copies hopen hother hchange hlookup hanswer =>
    obtain rfl : token = token' := Option.some.inj (hm.open_eq.symm.trans hopen)
    -- The copies are recorded, and so is that the arguments of the type avoid them.
    have hentry := mem_of_lookup_eq_some hlookup
    -- What the member declares avoids them, as they are new or it fits them.
    have hmember : copies.length = m.genericParameters.length ∧
        ∀ t ∈ m.signature, s.AvoidsMethod fresh t := by
      rcases hanswer with hold | ⟨hnew, hlength⟩
      · exact hfits hchange fresh copies hold
      · exact ⟨hlength, fun t _ => hrecorded.avoidsMethod hnew t⟩
    refine ⟨fresh, ?_, hmember.1, fun s₂ bs hs₂ hext₂ hlength t ht u v h h' => ?_⟩
    · rw [openMethod] at hopen ⊢
      split at hopen
      case isTrue hempty => exact if_pos hempty
      case isFalse => cases hopen
    refine h.substitute_close_again hs₂ (fun a ha => ?_) ?_ (hmember.1.trans hlength.symm)
      (fun {k c} hc => ?_) h'
    · obtain ⟨hheld, havoids⟩ := hrecorded₁.older hentry rfl a ha
      exact havoids.of_extends hs₁ hext₂ hheld
    · exact (hmember.2 t ht).of_extends hs (hext.trans hext₂) (hm.held.signature t ht)
    · have hf := hrecorded₁.copies hentry hc
      rw [hext₂.form_eq (Store.holds_of_form_ne (by rw [hf]; exact Form.noConfusion)), hf]

/-! ### Each way for a method -/

namespace Member

/-- Give a generic method its arguments, and replace the parameters of its type then. -/
def closeThenSubstitute (m : Member) (σ : Substitution) (arguments : List TypeId) :
    TypeM Member := do
  (← m.close arguments).substitute σ

/-- Replace the parameters of the type of a generic method, and give it its arguments then, with
those parameters replaced in them as well. -/
def substituteThenClose (m : Member) (σ : Substitution) (arguments : List TypeId) :
    TypeM Member := do
  let m' ← m.substitute σ
  m'.close (← arguments.mapM (CallSite.substitute σ))

/-- Go both ways, the one over the closed method first. -/
def closeBothWays (m : Member) (σ : Substitution) (arguments : List TypeId) :
    TypeM (Member × Member) := do
  let k ← m.closeThenSubstitute σ arguments
  let k' ← m.substituteThenClose σ arguments
  return (k, k')

/-- Go both ways, the one over the constructed type first. -/
def closeBothWaysBack (m : Member) (σ : Substitution) (arguments : List TypeId) :
    TypeM (Member × Member) := do
  let k' ← m.substituteThenClose σ arguments
  let k ← m.closeThenSubstitute σ arguments
  return (k, k')

end Member

section Ways

variable {s : Store} (hs : s.WellFormed) {m : Member} {token : MethodToken} {d : TypeId}
  {as bs : List TypeId} (hm : m.Closable s token as bs)

include hs hm

/-- **First the arguments of the method and then those of the type.** Nothing is made again. -/
theorem builds_closeThenSubstitute :
    Builds (m.closeThenSubstitute (forType d as) bs) s fun m' s' =>
      m'.HeldBy s' ∧ m.ClosedOn s' d as token bs m' ∧ s.KeepsRecords s' := by
  rw [Member.closeThenSubstitute]
  refine (builds_close hs hm.held hm.open_eq hm.arguments hm.length_eq).bind hs
    fun c s₁ h₁ hc => ?_
  obtain ⟨hc, hfirst, hargs, hgeneric, hkeeps⟩ := hc
  -- A method without parameters stays open, but there is nothing to make again.
  have hkept : c.openMethod = none ∨ c.openMethod = (forType d as).methodOwner ∨
      c.genericParameters = [] := by
    have hlength := hm.length_eq
    cases bs with
    | nil => exact .inr (.inr (hgeneric.trans (List.length_eq_zero_iff.mp hlength.symm)))
    | cons b bs =>
      rw [Member.openMethod, hargs]
      exact .inl rfl
  rw [Member.substitute_eq, Member.rebind_eq_pure hkept, pure_bind]
  have has : ∀ a ∈ as, s₁.Holds a := fun a ha => h₁.holds (hm.holds_typeArguments a ha)
  refine (builds_replaceTypes h₁.wellFormed (.forType has) hc).ran.imp fun m' s₂ h₂ hm' => ?_
  obtain ⟨hran, hm', hreplaced⟩ := hm'
  have hs₂ := h₂.wellFormed.toFormed
  obtain ⟨-, -, -, -, hheld⟩ := Member.heldBy_iff.mp hc
  obtain ⟨-, -, -, -, hheld'⟩ := Member.heldBy_iff.mp hm'
  rw [hargs] at hheld
  have harguments := hreplaced.genericArguments
  rw [hargs] at harguments
  have hreplaces : List.Forall₂ (s₂.Replaces (forType d as)) bs m'.genericArguments :=
    forall₂_imp_of_mem harguments fun b hb b' hb' himage =>
      ⟨h₂.holds (hheld b hb), hheld' b' hb', himage⟩
  have hfirst := hfirst.of_extends h₁.wellFormed.toFormed h₂.toExtends
    (hm.held.of_extends h₁.toExtends) hc
  exact ⟨hm', ⟨hreplaces, hfirst.comp hreplaced.toImageOf fun t _ u v hu hv =>
    hu.close_substitute hs₂ hreplaces hv⟩,
    hkeeps.trans (Member.keepsRecords_replaceTypes h₁.wellFormed.toFormed hran)⟩

variable (hrecorded : s.Recorded) (hfits : m.FitsAnswer s token (forType d as))

include hrecorded hfits

/-- A method on a constructed type is still open, and it can be closed. -/
theorem builds_substitute_open :
    Builds (m.substitute (forType d as)) s fun m' s' => m'.HeldBy s' ∧
      m'.genericParameters.length = m.genericParameters.length ∧ ∃ σ fresh, m.ImageOf s' σ m' ∧
        m'.openMethod = some fresh ∧ m.ClosesBy s' d as token σ fresh := by
  rw [Member.substitute_eq]
  refine (builds_memberRebind hs (.forType hm.holds_typeArguments) hm.held).ran.bind hs
    fun found s₁ h₁ hfound => ?_
  obtain ⟨m₁, σ⟩ := found
  obtain ⟨hran, hm₁, hσ₁, hrebound⟩ := hfound
  have hrecorded₁ := hrecorded.memberRebind hs hm.holds_typeArguments hran
  obtain ⟨fresh, hopen₁, hlength₁, hcloses⟩ := hrebound.closes hs.toFormed h₁.wellFormed.toFormed
    h₁.toExtends hrecorded hrecorded₁ hm hfits
  refine (builds_replaceTypes h₁.wellFormed hσ₁ hm₁).imp fun m' s' h₂ hm' => ?_
  obtain ⟨hm', hreplaced⟩ := hm'
  refine ⟨hm', ?_, σ, fresh, hrebound.imageOf hreplaced.toImageOf,
    hreplaced.openMethod_eq.trans hopen₁,
    fun s'' bs hs'' hext => hcloses s'' bs hs'' (h₂.toExtends.trans hext)⟩
  rw [hreplaced.genericParameters_same, hlength₁]

/-- **First the arguments of the type and then those of the method.** -/
theorem builds_substituteThenClose :
    Builds (m.substituteThenClose (forType d as) bs) s fun m' s' =>
      m'.HeldBy s' ∧ m.ClosedOn s' d as token bs m' := by
  rw [Member.substituteThenClose]
  refine (builds_substitute_open hs hm hrecorded hfits).bind hs fun m₁ s₁ h₁ hm₁ => ?_
  obtain ⟨hm₁, hlength₁, σ, fresh, hfirst, hopen₁, hcloses⟩ := hm₁
  have hm₀ := hm.of_extends hs.toFormed h₁.toExtends
  refine (builds_substituteAll h₁.wellFormed (.forType hm₀.holds_typeArguments) hm₀.arguments).bind
    h₁.wellFormed fun bs' s₂ h₂ hbs' => ?_
  have hheld' : ∀ b ∈ bs', s₂.Holds b := fun b hb => by
    obtain ⟨b₀, -, hr⟩ := exists_mem_of_forall₂_right hbs' hb
    exact hr.2.1
  have hlength' := hbs'.length_eq.symm.trans hm.length_eq
  refine (builds_close h₂.wellFormed (hm₁.of_extends h₂.toExtends) hopen₁ hheld'
    (hlength'.trans hlength₁.symm)).imp fun m' s' h₃ hm' => ?_
  obtain ⟨hm', hsecond, hargs, -, -⟩ := hm'
  have hext := (h₂.trans h₃).toExtends
  have hfirst := hfirst.of_extends h₁.wellFormed.toFormed hext hm₀.held hm₁
  refine ⟨hm', ?_, ?_⟩
  · rw [hargs]
    exact hbs'.imp fun _ _ hr => hr.of_extends h₂.wellFormed.toFormed h₃.toExtends
  · rw [hargs]
    exact hfirst.comp hsecond (hcloses s' bs' h₃.wellFormed.toFormed hext hlength')

/-! ### Both ways -/

theorem builds_closeBothWays : Builds (m.closeBothWays (forType d as) bs) s fun found _ =>
    found.1.SameTypes found.2 := by
  rw [Member.closeBothWays]
  refine (builds_closeThenSubstitute hs hm).bind hs fun k s₁ h₁ hk => ?_
  obtain ⟨hk, hclosed, hkeeps⟩ := hk
  have hm₁ := hm.of_extends hs.toFormed h₁.toExtends
  have hfits₁ := hfits.of_extends hs h₁.toExtends hkeeps.rebound_eq hm.held
  refine (builds_substituteThenClose h₁.wellFormed hm₁ (hkeeps.recorded hrecorded) hfits₁).bind
    h₁.wellFormed fun k' s₂ h₂ hk' => ?_
  have hclosed₂ := hclosed.of_extends h₁.wellFormed.toFormed h₂.toExtends hm₁.held hk
  exact .pure h₂.wellFormed (hclosed₂.sameTypes h₂.wellFormed.toFormed hk'.2)

theorem builds_closeBothWaysBack : Builds (m.closeBothWaysBack (forType d as) bs) s fun found _ =>
    found.1.SameTypes found.2 := by
  rw [Member.closeBothWaysBack]
  refine (builds_substituteThenClose hs hm hrecorded hfits).bind hs fun k' s₁ h₁ hk' => ?_
  obtain ⟨hk', hclosed⟩ := hk'
  have hm₁ := hm.of_extends hs.toFormed h₁.toExtends
  refine (builds_closeThenSubstitute h₁.wellFormed hm₁).bind h₁.wellFormed fun k s₂ h₂ hk => ?_
  have hclosed₂ := hclosed.of_extends h₁.wellFormed.toFormed h₂.toExtends hm₁.held hk'
  exact .pure h₂.wellFormed (hk.2.1.sameTypes h₂.wellFormed.toFormed hclosed₂)

end Ways

/-- **Closing a method commutes with closing its type.** Whichever way is gone first, both lead to
the same types, even where the parameters of the method are made again on the way, and neither fails
unless a hierarchy expands without end. -/
theorem close_substitute_comm {allowed : Store → Operation → Prop} {s : Store}
    (hreach : s.Reachable allowed) {m : Member} {token : MethodToken} {d : TypeId}
    {as bs : List TypeId} (hm : m.Closable s token as bs)
    (hfits : m.FitsAnswer s token (forType d as)) :
    (∀ k k' s', m.closeBothWays (forType d as) bs s = .ok (k, k') s' ∨
      m.closeBothWaysBack (forType d as) bs s = .ok (k, k') s' → k.SameTypes k') ∧
    ∀ e s', m.closeBothWays (forType d as) bs s = .error e s' ∨
      m.closeBothWaysBack (forType d as) bs s = .error e s' → e.IsEndless := by
  have hforth := builds_closeBothWays hreach.wellFormed hm hreach.recorded hfits
  have hback := builds_closeBothWaysBack hreach.wellFormed hm hreach.recorded hfits
  constructor
  · rintro k k' s' (hrun | hrun)
    · exact (hforth.of_ok hrun).2.2
    · exact (hback.of_ok hrun).2.2
  · rintro e s' (hrun | hrun)
    · exact (hforth.of_error hrun).2
    · exact (hback.of_error hrun).2

/-! ### Sorters -/

/-- The test whether a type avoids a method. -/
def Store.avoidsMethod (s : Store) (m : MethodToken) (t : TypeId) : Bool :=
  (s.mentioned t).all fun q => (s.info q).parameter?.all fun p => p.owner ≠ .method m

theorem Store.AvoidsMethod.of_check {s : Store} (hs : s.Formed) {m : MethodToken} {t : TypeId}
    (ht : s.Holds t) (h : s.avoidsMethod m t) : s.AvoidsMethod m t := by
  intro q k hq hf
  obtain ⟨p, hp, howner, -⟩ := TypeInfo.form_eq_parameter_iff.mp hf
  have hne := List.all_eq_true.mp h q ((mem_mentioned_iff hs ht).mpr hq)
  rw [TypeInfo.parameter?_eq_some_iff.mpr hp, Option.all_some] at hne
  exact of_decide_eq_true hne howner

/-- The test whether a method can be closed on a type. -/
def Member.isClosable (m : Member) (s : Store) (token : MethodToken) (as bs : List TypeId) : Bool :=
  (m.types ++ as ++ bs).all (fun t => t.index < s.size) && m.openMethod = some token &&
    as.all (s.avoidsMethod token) && bs.length = m.genericParameters.length

theorem Member.Closable.of_check {m : Member} {s : Store} (hs : s.Formed) {token : MethodToken}
    {as bs : List TypeId} (h : m.isClosable s token as bs) : m.Closable s token as bs := by
  simp only [isClosable, Bool.and_eq_true, List.all_append, List.all_eq_true,
    decide_eq_true_eq] at h
  obtain ⟨⟨⟨⟨⟨htypes, has⟩, hbs⟩, hopen⟩, havoids⟩, hlength⟩ := h
  exact ⟨htypes, hopen, fun a ha => ⟨has a ha, .of_check hs (has a ha) (havoids a ha)⟩, hbs,
    hlength⟩

/-- A run that defines sorters of `T` and a method of `U`, which has to be ordered with `T`. The
parameters of the method, or what passes for them, are made again for sorters of numbers. -/
def sorterRun (parameters : List TypeId) : List Operation :=
  [.define "Sorter" .classKind ["T"], .define "Ordered" .interfaceKind ["K"], .newMethod,
    .methodParameters ⟨0⟩ ["U"], .construct ⟨29⟩ [⟨28⟩], .constrain ⟨31⟩ Flags.none [⟨32⟩],
    .construct ⟨29⟩ [⟨31⟩], .rebind ⟨0⟩ parameters (forType ⟨27⟩ [Core.int32])]

/-- A method of sorters with a parameter of a given type, which returns what is ordered with `U`. -/
def sortMethod (type : TypeId) : Member :=
  (Member.method "Sort" ⟨27⟩ [{ position := 0, name := none, type }] ⟨33⟩).withGenericMethod ⟨0⟩
    [⟨31⟩]

/-- The method that takes a `U` is closed by sorters of `T`, on sorters of numbers. One way leads
over the parameter that was made again, the other does not, and both lead to the same types. -/
theorem close_substitute_comm_sorter :
    ∃ s k k' s', s = Store.initial.afterAll (sorterRun [⟨31⟩]) ∧
      (sortMethod ⟨31⟩).closeBothWays (forType ⟨27⟩ [Core.int32]) [⟨27⟩] s = .ok (k, k') s' ∧
      k.genericMethod = some ⟨0⟩ ∧ k'.genericMethod = some ⟨1⟩ ∧ k.SameTypes k' := by
  obtain ⟨s, heq, hreach, hclosable, hanswer, havoids, hsucceeds⟩ : ∃ s : Store,
      s = Store.initial.afterAll (sorterRun [⟨31⟩]) ∧ s.Reachable (fun s op => op.Scoped s) ∧
      (sortMethod ⟨31⟩).isClosable s ⟨0⟩ [Core.int32] [⟨27⟩] ∧
      s.rebound.lookup ⟨⟨0⟩, some ⟨27⟩, [Core.int32]⟩ = some (⟨1⟩, [⟨34⟩]) ∧
      (∀ t ∈ (sortMethod ⟨31⟩).signature, s.avoidsMethod ⟨1⟩ t) ∧
      succeedsWith ((sortMethod ⟨31⟩).closeBothWays (forType ⟨27⟩ [Core.int32]) [⟨27⟩]) s
        (fun (k, k') _ => k.genericMethod = some ⟨0⟩ ∧ k'.genericMethod = some ⟨1⟩) :=
    ⟨_, rfl, .of_scopedRun (by decide +kernel), by decide +kernel⟩
  have hs := hreach.wellFormed.toFormed
  have hclosable := Member.Closable.of_check hs hclosable
  have hfits : (sortMethod ⟨31⟩).FitsAnswer s ⟨0⟩ (forType ⟨27⟩ [Core.int32]) := by
    intro _ fresh copies hlookup
    obtain ⟨rfl, rfl⟩ := Prod.mk.inj (Option.some.inj (hlookup.symm.trans hanswer))
    exact ⟨rfl, fun t ht => .of_check hs (hclosable.held.signature t ht) (havoids t ht)⟩
  obtain ⟨hsame, -⟩ := close_substitute_comm hreach hclosable hfits
  obtain ⟨⟨k, k'⟩, s', hrun, hmethods⟩ := exists_of_succeedsWith hsucceeds
  obtain ⟨hk, hk'⟩ := of_decide_eq_true hmethods
  exact ⟨s, k, k', s', heq, hrun, hk, hk', hsame k k' s' (.inl hrun)⟩

/-- **The two ways part where the method does not fit what was made of it before.** A method that
takes the parameter that was made again is given a text for it on one way only; and where two
parameters were made again instead of one, a single argument is refused. -/
theorem close_substitute_differs :
    (∃ s k k' s', s.Reachable (fun s op => op.Scoped s) ∧ (s.info ⟨27⟩).isDefinition ∧
      (sortMethod ⟨34⟩).Closable s ⟨0⟩ [Core.int32] [Core.string] ∧
      (sortMethod ⟨34⟩).closeBothWays (forType ⟨27⟩ [Core.int32]) [Core.string] s =
        .ok (k, k') s' ∧
      k.parameters.map Parameter.type = [⟨34⟩] ∧
      k'.parameters.map Parameter.type = [Core.string]) ∧
    ∃ s s', s.Reachable (fun s op => op.Scoped s) ∧ (s.info ⟨27⟩).isDefinition ∧
      (sortMethod ⟨31⟩).Closable s ⟨0⟩ [Core.int32] [Core.string] ∧
      (sortMethod ⟨31⟩).closeBothWays (forType ⟨27⟩ [Core.int32]) [Core.string] s =
        .error (.argumentCount "Sort" 2 1) s' := by
  constructor
  · obtain ⟨s, hreach, hdefinition, hclosable, hsucceeds⟩ : ∃ s : Store,
        s.Reachable (fun s op => op.Scoped s) ∧ (s.info ⟨27⟩).isDefinition ∧
        (sortMethod ⟨34⟩).isClosable s ⟨0⟩ [Core.int32] [Core.string] ∧
        succeedsWith ((sortMethod ⟨34⟩).closeBothWays (forType ⟨27⟩ [Core.int32]) [Core.string]) s
          (fun (k, k') _ => k.parameters.map Parameter.type = [⟨34⟩] ∧
            k'.parameters.map Parameter.type = [Core.string]) :=
      ⟨Store.initial.afterAll (sorterRun [⟨31⟩]), .of_scopedRun (by decide +kernel),
        by decide +kernel⟩
    obtain ⟨⟨k, k'⟩, s', hrun, htypes⟩ := exists_of_succeedsWith hsucceeds
    obtain ⟨hk, hk'⟩ := of_decide_eq_true htypes
    exact ⟨s, k, k', s', hreach, hdefinition, .of_check hreach.wellFormed.toFormed hclosable, hrun,
      hk, hk'⟩
  · obtain ⟨s, hreach, hdefinition, hclosable, hfails⟩ : ∃ s : Store,
        s.Reachable (fun s op => op.Scoped s) ∧ (s.info ⟨27⟩).isDefinition ∧
        (sortMethod ⟨31⟩).isClosable s ⟨0⟩ [Core.int32] [Core.string] ∧
        failsWith ((sortMethod ⟨31⟩).closeBothWays (forType ⟨27⟩ [Core.int32]) [Core.string]) s
          (.argumentCount "Sort" 2 1) :=
      ⟨Store.initial.afterAll (sorterRun [⟨31⟩, ⟨31⟩]), .of_scopedRun (by decide +kernel),
        by decide +kernel⟩
    obtain ⟨s', hrun⟩ := exists_of_failsWith hfails
    exact ⟨s, s', hreach, hdefinition, .of_check hreach.wellFormed.toFormed hclosable, hrun⟩

end CallSite
