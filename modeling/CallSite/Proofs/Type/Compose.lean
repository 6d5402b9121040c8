import CallSite.Proofs.Type.Check
import CallSite.Proofs.Type.Stable

/-!
# The laws of substitution

To replace the parameters of a type and then those of the result is to replace them once, by what
they were replaced by at first with its parameters replaced. Both ways enter types that are not
there yet, and not the same ones on the way; still they meet in one place of the store, since types
are made once and an image is determined by what the parameters are replaced by.

* `Substitution.replaced` – a substitution with the parameters replaced in what it puts in place.
* `Substitution.Covers` – a substitution replaces every parameter that a type mentions.
* `substitution_laws` – composition, what leaves a type alone, and which results are open.
-/

namespace CallSite

variable {s s' : Store} {σ σ' τ : Substitution} {t u : TypeId}

/-! ### Substitutions under a substitution -/

namespace Substitution

/-- All that a substitution puts in place of parameters, whether they occur somewhere or not. -/
def replacements (σ : Substitution) : List TypeId :=
  σ.typeArguments ++ σ.methodArguments

/-- Replace the parameters in what a substitution puts in place of parameters. -/
def replaced (σ τ : Substitution) : TypeM Substitution := do
  let typeArguments ← σ.typeArguments.mapM (substitute τ)
  let methodArguments ← σ.methodArguments.mapM (substitute τ)
  return { σ with typeArguments, methodArguments }

/-- **A substitution replaces every parameter** that a type mentions. -/
def Covers (σ : Substitution) (s : Store) (t : TypeId) : Prop :=
  ∀ q p, s.Mentions t q → (s.info q).shape = .parameter p → ∃ r, σ.lookup p = some r

theorem HeldBy.of_replacements (h : ∀ r ∈ σ.replacements, s.Holds r) : σ.HeldBy s := by
  intro p r hr
  refine h r (List.mem_append.mpr ?_)
  unfold lookup at hr
  split at hr <;> split at hr
  · exact .inl (List.mem_of_getElem? hr)
  · cases hr
  · exact .inr (List.mem_of_getElem? hr)
  · cases hr

end Substitution

/-- A type and its image under a substitution are there. -/
def Store.Replaces (s : Store) (τ : Substitution) (r r' : TypeId) : Prop :=
  s.Holds r ∧ s.Holds r' ∧ Image s τ.Sends r r'

theorem Store.Replaces.of_extends {r r' : TypeId} (h : s.Replaces τ r r') (hs : s.Formed)
    (hext : s.Extends s') : s'.Replaces τ r r' :=
  ⟨hext.holds h.1, hext.holds h.2.1, h.2.2.of_extends hs hext h.1 h.2.1⟩

/-- **The second substitution lists the images** of what the first one lists. -/
structure Substitution.ReplacedBy (σ : Substitution) (s : Store) (τ σ' : Substitution) : Prop where
  /-- The definition stays. -/
  typeOwner_eq : σ'.typeOwner = σ.typeOwner
  /-- The method stays. -/
  methodOwner_eq : σ'.methodOwner = σ.methodOwner
  /-- What replaces the parameters of the definition. -/
  typeArguments : List.Forall₂ (s.Replaces τ) σ.typeArguments σ'.typeArguments
  /-- What replaces the parameters of the method. -/
  methodArguments : List.Forall₂ (s.Replaces τ) σ.methodArguments σ'.methodArguments

namespace Substitution.ReplacedBy

theorem of_extends (h : σ.ReplacedBy s τ σ') (hs : s.Formed) (hext : s.Extends s') :
    σ.ReplacedBy s' τ σ' :=
  ⟨h.typeOwner_eq, h.methodOwner_eq, h.typeArguments.imp fun _ _ hr => hr.of_extends hs hext,
    h.methodArguments.imp fun _ _ hr => hr.of_extends hs hext⟩

/-- **A parameter is replaced by both or by neither**, and by the image in the second one. -/
theorem lookup_rel (h : σ.ReplacedBy s τ σ') (p : GenericParameter) :
    Option.Rel (s.Replaces τ) (σ.lookup p) (σ'.lookup p) := by
  cases hp : p.owner with
  | type d =>
    rw [lookup_of_type hp, lookup_of_type hp, h.typeOwner_eq]
    split
    · exact rel_getElem?_of_forall₂ h.typeArguments _
    · exact .none
  | method m =>
    rw [lookup_of_method hp, lookup_of_method hp, h.methodOwner_eq]
    split
    · exact rel_getElem?_of_forall₂ h.methodArguments _
    · exact .none

theorem exists_lookup (h : σ.ReplacedBy s τ σ') {p : GenericParameter} {r : TypeId}
    (hr : σ.lookup p = some r) : ∃ r', σ'.lookup p = some r' ∧ s.Replaces τ r r' := by
  have hrel := h.lookup_rel p
  rw [hr] at hrel
  generalize σ'.lookup p = o at hrel ⊢
  cases hrel with
  | some hreplaces => exact ⟨_, rfl, hreplaces⟩

theorem heldBy (h : σ.ReplacedBy s τ σ') : σ'.HeldBy s := by
  intro p r' hr'
  have hrel := h.lookup_rel p
  rw [hr'] at hrel
  generalize σ.lookup p = o at hrel
  cases hrel with
  | some hreplaces => exact hreplaces.2.1

end Substitution.ReplacedBy

/-- The types of a list are replaced one after another. -/
theorem builds_substituteAll (hs : s.WellFormed) (hτ : τ.HeldBy s) {rs : List TypeId}
    (hrs : ∀ r ∈ rs, s.Holds r) :
    Builds (rs.mapM (substitute τ)) s fun rs' s' => List.Forall₂ (s'.Replaces τ) rs rs' := by
  refine .mapM (P := fun r r' s' => s'.Replaces τ r r') hs
    (fun r r' s' s'' hgrown hs' hr => hr.of_extends hs'.toFormed hgrown.toExtends) rs
    fun r hr s' hgrown => ?_
  have hheld := hgrown.holds (hrs r hr)
  refine (builds_substitute hgrown.wellFormed hheld (hτ.of_extends hgrown.toExtends)).imp
    fun r' s'' hgrown' hr' => ⟨hgrown'.holds hheld, hr'⟩

theorem ensures_substituteAll (hs : s.WellFormed) (hτ : τ.HeldBy s) {rs : List TypeId}
    (hrs : ∀ r ∈ rs, s.Holds r) :
    Ensures (rs.mapM (substitute τ)) s fun rs' s' => List.Forall₂ (s'.Replaces τ) rs rs' :=
  (builds_substituteAll hs hτ hrs).ensures

/-- **What is put in place of parameters is replaced** by its images. -/
theorem Substitution.ensures_replaced (hs : s.WellFormed)
    (hσ : ∀ r ∈ σ.replacements, s.Holds r) (hτ : τ.HeldBy s) :
    Ensures (σ.replaced τ) s fun σ' s' => σ.ReplacedBy s' τ σ' := by
  refine (ensures_substituteAll hs hτ fun r hr => hσ r (List.mem_append_left _ hr)).bind hs
    fun types s₁ hgrown htypes => ?_
  refine (ensures_substituteAll hgrown.wellFormed (hτ.of_extends hgrown.toExtends) fun r hr =>
    hgrown.holds (hσ r (List.mem_append_right _ hr))).bind hgrown.wellFormed
    fun methods s₂ hgrown' hmethods => ?_
  exact .pure hgrown'.wellFormed ⟨rfl, rfl, htypes.imp fun _ _ hr =>
    hr.of_extends hgrown.wellFormed.toFormed hgrown'.toExtends, hmethods⟩

/-! ### Composition -/

section Compose

variable (hs : s.Formed) (hcovers : σ.Covers s t) (hreplaced : σ.ReplacedBy s τ σ')

include hs hcovers hreplaced

/-- **The image of the image** is the image under the substitution that lists the images. -/
theorem Image.compose {v : TypeId} (h : Image s σ.Sends t u) (h' : Image s τ.Sends u v) :
    Image s σ'.Sends t v := by
  refine h.comp hs h' fun x p y z hx hp hy hz => ?_
  obtain ⟨r, hr⟩ := hcovers x p hx hp
  obtain ⟨r', hr', -, -, himage⟩ := hreplaced.exists_lookup hr
  obtain rfl : y = r := by rw [hy, hr, Option.getD_some]
  rw [Substitution.Sends, hr', Option.getD_some]
  exact hz.unique_of_sends hs himage

/-- The other way round: what a type is replaced by at once is the image of what it is replaced by
at first. -/
theorem Image.decompose {w : TypeId} (h : Image s σ.Sends t u) (h' : Image s σ'.Sends t w) :
    Image s τ.Sends u w := by
  refine h.between hs h' fun x p y y' hx hp hy hy' => ?_
  obtain ⟨r, hr⟩ := hcovers x p hx hp
  obtain ⟨r', hr', -, -, himage⟩ := hreplaced.exists_lookup hr
  rw [hy, hy', hr, hr']
  exact himage

end Compose

/-- What a type mentions stays the same, so it stays covered. -/
theorem Substitution.Covers.of_extends (h : σ.Covers s t) (hs : s.Formed) (hext : s.Extends s')
    (ht : s.Holds t) : σ.Covers s' t := by
  intro q p hq hp
  have hq := (hext.mentions_iff hs ht).mp hq
  rw [hext.info_eq hq.holds] at hp
  exact h q p hq hp

/-- **First one substitution and then the other** is at once the one that lists what both make of
the parameters. -/
theorem substitute_substitute (hs : s.WellFormed) (ht : s.Holds t)
    (hσ : ∀ r ∈ σ.replacements, s.Holds r) (hτ : τ.HeldBy s) (hcovers : σ.Covers s t)
    {s₁ s₂ s₃ : Store} {v : TypeId} (hfirst : substitute σ t s = .ok u s₁)
    (hsecond : substitute τ u s₁ = .ok v s₂) (hreplaced : σ.replaced τ s₂ = .ok σ' s₃) :
    substitute σ' t s₃ = .ok v s₃ := by
  obtain ⟨hgrown₁, hu, himage₁⟩ :=
    (ensures_substitute hs ht (.of_replacements hσ)).of_ok hfirst
  obtain ⟨hgrown₂, hv, himage₂⟩ := (ensures_substitute hgrown₁.wellFormed hu
    (hτ.of_extends hgrown₁.toExtends)).of_ok hsecond
  have hgrown := hgrown₁.trans hgrown₂
  obtain ⟨hgrown₃, hlists⟩ := (Substitution.ensures_replaced hgrown.wellFormed
    (fun r hr => hgrown.holds (hσ r hr)) (hτ.of_extends hgrown.toExtends)).of_ok hreplaced
  have hext₁ := (hgrown₂.trans hgrown₃).toExtends
  have hext := hgrown₁.toExtends.trans hext₁
  have himage := Image.compose hgrown₃.wellFormed.toFormed (hcovers.of_extends hs.toFormed hext ht)
    hlists (himage₁.of_extends hgrown₁.wellFormed.toFormed hext₁ (hgrown₁.holds ht) hu)
    (himage₂.of_extends hgrown₂.wellFormed.toFormed hgrown₃.toExtends (hgrown₂.holds hu) hv)
  exact substitute_of_image hgrown₃.wellFormed.toFormed himage (hext.holds ht) (hgrown₃.holds hv)

/-- The other way round: what was replaced at once is found again when it is replaced in two
steps. -/
theorem substitute_substitute_of_replaced (hs : s.WellFormed) (ht : s.Holds t)
    (hσ : ∀ r ∈ σ.replacements, s.Holds r) (hτ : τ.HeldBy s) (hcovers : σ.Covers s t)
    {s₁ s₂ s₃ : Store} {w : TypeId} (hreplaced : σ.replaced τ s = .ok σ' s₁)
    (honce : substitute σ' t s₁ = .ok w s₂) (hfirst : substitute σ t s₂ = .ok u s₃) :
    substitute τ u s₃ = .ok w s₃ := by
  obtain ⟨hgrown₁, hlists⟩ := (Substitution.ensures_replaced hs hσ hτ).of_ok hreplaced
  obtain ⟨hgrown₂, hw, himage₂⟩ :=
    (ensures_substitute hgrown₁.wellFormed (hgrown₁.holds ht) hlists.heldBy).of_ok honce
  have hgrown := hgrown₁.trans hgrown₂
  obtain ⟨hgrown₃, hu, himage₃⟩ := (ensures_substitute hgrown.wellFormed (hgrown.holds ht)
    (Substitution.HeldBy.of_extends (.of_replacements hσ) hgrown.toExtends)).of_ok hfirst
  have hext := hgrown.toExtends.trans hgrown₃.toExtends
  have himage := Image.decompose hgrown₃.wellFormed.toFormed
    (hcovers.of_extends hs.toFormed hext ht)
    (hlists.of_extends hgrown₁.wellFormed.toFormed (hgrown₂.trans hgrown₃).toExtends) himage₃
    (himage₂.of_extends hgrown₂.wellFormed.toFormed hgrown₃.toExtends (hgrown.holds ht) hw)
  exact substitute_of_image hgrown₃.wellFormed.toFormed himage hu (hgrown₃.holds hw)

/-! ### What leaves a type alone -/

/-- **A type stays** when the parameters that it mentions are replaced by themselves, if at all. -/
theorem substitute_of_stays (hs : s.Formed) (ht : s.Holds t)
    (hstays : ∀ q p r, s.Mentions t q → (s.info q).shape = .parameter p → σ.lookup p = some r →
      r = q) : substitute σ t s = .ok t s := by
  refine substitute_of_image hs (.self hs fun q p hq hp => ?_) ht ht
  rw [Substitution.Sends]
  cases hr : σ.lookup p with
  | none => rfl
  | some r => exact (hstays q p r hq hp hr).symm

/-- The own parameters of a definition are replaced by themselves. -/
theorem substitute_own (hs : s.Formed) (ht : s.Holds t) (d : TypeId) :
    substitute (.forType d (s.info d).arguments) t s = .ok t s := by
  refine substitute_of_stays hs ht fun q p r _ hp hr => ?_
  by_cases howner : p.owner = .type d
  · have hf : s.form q = .parameter (.type d) p.position := by
      rw [Store.form, TypeInfo.form_of_parameter hp, howner]
    obtain ⟨shape, own, hd, hq⟩ := hs.parameter_own hf
    rw [Substitution.lookup_forType howner, (TypeInfo.form_eq_named_iff.mp hd).2.2.1, hq] at hr
    exact (Option.some.inj hr).symm
  · rw [Substitution.lookup_forType_of_ne howner] at hr
    cases hr

/-! ### Open results -/

/-- **The result is open** when a parameter is replaced by something open. -/
theorem isOpen_substitute (hs : s.WellFormed) (ht : s.Holds t) (hσ : σ.HeldBy s)
    (hcovers : σ.Covers s t) (h : substitute σ t s = .ok u s') :
    s'.isOpen u ↔ ∃ q p r, s.Mentions t q ∧ (s.info q).shape = .parameter p ∧
      σ.lookup p = some r ∧ s.isOpen r := by
  obtain ⟨hgrown, hu, himage⟩ := (ensures_substitute hs ht hσ).of_ok h
  have hs' := hgrown.wellFormed.toFormed
  have hcovers' := hcovers.of_extends hs.toFormed hgrown.toExtends ht
  rw [hs'.isOpen_iff hu]
  constructor
  · rintro ⟨q, hq⟩
    obtain ⟨x, p, y, hx, hp, hy, hyq⟩ := himage.mentions hs' hq
    obtain ⟨r, hr⟩ := hcovers' x p hx hp
    obtain rfl : y = r := by rw [hy, hr, Option.getD_some]
    have hheld := hσ p y hr
    have hx := (hgrown.toExtends.mentions_iff hs.toFormed ht).mp hx
    refine ⟨x, p, y, hx, hgrown.info_eq hx.holds ▸ hp, hr, (hs.toFormed.isOpen_iff hheld).mpr ?_⟩
    exact ⟨q, (hgrown.toExtends.mentions_iff hs.toFormed hheld).mp hyq⟩
  · rintro ⟨q, p, r, hq, hp, hr, hopen⟩
    have hheld := hσ p r hr
    obtain ⟨q', hq'⟩ := (hs.toFormed.isOpen_iff hheld).mp hopen
    obtain ⟨y, hy, hmentions⟩ := himage.exists_valued
      ((hgrown.toExtends.mentions_iff hs.toFormed ht).mpr hq) (hgrown.info_eq hq.holds ▸ hp) hs'
    obtain rfl : y = r := by rw [hy, hr, Option.getD_some]
    exact ⟨q', hmentions q' ((hgrown.toExtends.mentions_iff hs.toFormed hheld).mpr hq')⟩

/-! ### The laws together -/

/-- **The laws of substitution.** Two substitutions one after another are one, in whichever order
the two ways are gone; the own parameters of a definition in place of themselves, and anything in
place of parameters that do not occur, leave a type as it is; and a result is open exactly when a
parameter was replaced by something open. -/
theorem substitution_laws {allowed : Store → Operation → Prop} (hreach : s.Reachable allowed)
    (ht : s.Holds t) :
    (∀ σ τ, (∀ r ∈ σ.replacements, s.Holds r) → τ.HeldBy s → σ.Covers s t →
      (∀ u s₁ v s₂ σ' s₃, substitute σ t s = .ok u s₁ → substitute τ u s₁ = .ok v s₂ →
        σ.replaced τ s₂ = .ok σ' s₃ → substitute σ' t s₃ = .ok v s₃) ∧
      (∀ σ' s₁ w s₂ u s₃, σ.replaced τ s = .ok σ' s₁ → substitute σ' t s₁ = .ok w s₂ →
        substitute σ t s₂ = .ok u s₃ → substitute τ u s₃ = .ok w s₃)) ∧
    (∀ d, (s.info d).isDefinition →
      substitute (.forType d (s.info d).arguments) t s = .ok t s) ∧
    (s.isOpen t = false → ∀ σ, substitute σ t s = .ok t s) ∧
    ∀ σ, σ.HeldBy s → σ.Covers s t → ∀ u s', substitute σ t s = .ok u s' →
      (s'.isOpen u ↔ ∃ q p r, s.Mentions t q ∧ (s.info q).shape = .parameter p ∧
        σ.lookup p = some r ∧ s.isOpen r) := by
  have hs := hreach.wellFormed
  refine ⟨fun σ τ hσ hτ hcovers => ⟨fun u s₁ v s₂ σ' s₃ hfirst hsecond hreplaced => ?_,
    fun σ' s₁ w s₂ u s₃ hreplaced honce hfirst => ?_⟩, fun d _ => substitute_own hs.toFormed ht d,
    fun hclosed σ => ?_, fun σ hσ hcovers u s' h => isOpen_substitute hs ht hσ hcovers h⟩
  · exact substitute_substitute hs ht hσ hτ hcovers hfirst hsecond hreplaced
  · exact substitute_substitute_of_replaced hs ht hσ hτ hcovers hreplaced honce hfirst
  · exact substitute_of_stays hs.toFormed ht fun q _ _ hq =>
      absurd hq (hs.toFormed.not_mentions_of_not_isOpen ht hclosed q)

/-- Whether a type is covered can be computed. -/
theorem Substitution.Covers.of_check (hs : s.Formed) (ht : s.Holds t)
    (h : (s.mentioned t).all fun q => ((s.info q).parameter?.bind σ.lookup).isSome) :
    σ.Covers s t := by
  intro q p hq hp
  have hsome := List.all_eq_true.mp h q ((Store.mem_mentioned_iff hs ht).mpr hq)
  rw [TypeInfo.parameter?_eq_some_iff.mpr hp, Option.bind_some] at hsome
  exact Option.isSome_iff_exists.mp hsome

/-- A run that makes boxes and pairs, and the pair of the second parameter of pairs with the tables
of a parameter of a method. -/
def pairRun : List Operation :=
  [.define "Box" .classKind ["T"], .define "Pair" .classKind ["A", "B"], .newMethod,
    .methodParameters ⟨0⟩ ["U"], .arrayOf ⟨32⟩ 1, .construct ⟨29⟩ [⟨31⟩, ⟨34⟩]]

/-- Boxes in place of the parameter of the pair and of that of the method. -/
def boxing : Substitution :=
  (Substitution.forType ⟨29⟩ [Core.int32, ⟨27⟩]).withMethod ⟨0⟩ [⟨27⟩]

/-- Boxes are put into the pair, and then texts into the boxes: this makes the pair that boxes of
texts make at once. In between the pair is open. -/
theorem substitution_laws_pair :
    ∃ u s₁ v s₂ σ' s₃, substitute boxing ⟨35⟩ (Store.initial.afterAll pairRun) = .ok u s₁ ∧
      substitute (.forType ⟨27⟩ [Core.string]) u s₁ = .ok v s₂ ∧
      boxing.replaced (.forType ⟨27⟩ [Core.string]) s₂ = .ok σ' s₃ ∧ σ' ≠ boxing ∧ u ≠ v ∧
      substitute σ' ⟨35⟩ s₃ = .ok v s₃ ∧ s₁.isOpen u := by
  have hreach : (Store.initial.afterAll pairRun).Reachable fun s op => op.Scoped s :=
    .of_scopedRun (by decide +kernel)
  have hsize : (Store.initial.afterAll pairRun).size = 36 := by decide +kernel
  have hholds : ∀ t : TypeId, t.index < 36 → (Store.initial.afterAll pairRun).Holds t :=
    fun _ ht => Store.holds_of_size_eq hsize ht
  have hboxing : ∀ r ∈ boxing.replacements, (Store.initial.afterAll pairRun).Holds r := by
    have hall : ∀ r ∈ boxing.replacements, r.index < 36 := by decide
    exact fun r hr => hholds r (hall r hr)
  have htexts : (Substitution.forType ⟨27⟩ [Core.string]).HeldBy
      (Store.initial.afterAll pairRun) := .of_check (by decide +kernel)
  have hcovers : boxing.Covers (Store.initial.afterAll pairRun) ⟨35⟩ :=
    .of_check hreach.wellFormed.toFormed (hholds _ (by decide)) (by decide +kernel)
  obtain ⟨hcompose, -, -, hopen⟩ := substitution_laws hreach (hholds ⟨35⟩ (by decide))
  have hsucceeds : succeedsWith (do
      let u ← substitute boxing ⟨35⟩
      let v ← substitute (.forType ⟨27⟩ [Core.string]) u
      let σ' ← boxing.replaced (.forType ⟨27⟩ [Core.string])
      return (u, v, σ')) (Store.initial.afterAll pairRun)
        (fun (u, v, σ') _ => σ' ≠ boxing ∧ u ≠ v) := by decide +kernel
  obtain ⟨⟨u, v, σ'⟩, s₃, hrun, hdiffer⟩ := exists_of_succeedsWith hsucceeds
  obtain ⟨u', s₁, hfirst, hrun⟩ := exists_of_bind_eq_ok hrun
  obtain ⟨v', s₂, hsecond, hrun⟩ := exists_of_bind_eq_ok hrun
  obtain ⟨σ'', s₃', hreplaced, hrun⟩ := exists_of_bind_eq_ok hrun
  obtain ⟨hresult, rfl⟩ := of_pure_eq_ok hrun
  cases hresult
  obtain ⟨hσ', huv⟩ := of_decide_eq_true hdiffer
  refine ⟨u, s₁, v, s₂, σ', s₃', hfirst, hsecond, hreplaced, hσ', huv,
    (hcompose boxing _ hboxing htexts hcovers).1 u s₁ v s₂ σ' s₃' hfirst hsecond hreplaced, ?_⟩
  have hmentions : (Store.initial.afterAll pairRun).Mentions ⟨35⟩ ⟨31⟩ :=
    (Store.mem_mentioned_iff hreach.wellFormed.toFormed (hholds _ (by decide))).mp
      (by decide +kernel)
  obtain ⟨p, hp⟩ := hmentions.exists_parameter
  have hlookup : ((Store.initial.afterAll pairRun).info ⟨31⟩).parameter?.bind boxing.lookup =
      some ⟨27⟩ := by decide +kernel
  rw [TypeInfo.parameter?_eq_some_iff.mpr hp, Option.bind_some] at hlookup
  exact (hopen boxing (.of_replacements hboxing) hcovers u s₁ hfirst).mpr
    ⟨_, p, _, hmentions, hp, hlookup, by decide +kernel⟩

end CallSite
