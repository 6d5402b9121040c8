import CallSite.Proofs.Type.Form

/-!
# The image of a type

A type is an **image** of another one when it has the same form with the parameters replaced. What a
parameter may be replaced by is said by a `Valuation`, so the same relation serves a substitution
(`Substitution.Sends`) and the slots of a match.

Types are made once, so a valuation that leaves no choice for the parameters leaves none for the
image (`Image.unique`). A type is its own image when its parameters stay (`Image.self`), what an
image mentions comes from the parameters (`Image.mentions`), and images compose (`Image.comp`).
-/

namespace CallSite

/-- What the types of parameters may be replaced by. -/
abbrev Valuation :=
  TypeId → GenericParameter → TypeId → Prop

/-- **The second type is the first with its parameters replaced.** -/
inductive Image (s : Store) (V : Valuation) : TypeId → TypeId → Prop
  /-- A parameter is replaced by what the valuation says. -/
  | parameter {m t : TypeId} {p : GenericParameter} :
      (s.info m).shape = .parameter p → V m p t → Image s V m t
  /-- Arrays of the same rank, with the element replaced. -/
  | array {m t e e' : TypeId} {rank : Nat} :
      s.form m = .array e rank → s.form t = .array e' rank → Image s V e e' → Image s V m t
  /-- References, with the element replaced. -/
  | reference {m t e e' : TypeId} :
      s.form m = .reference e → s.form t = .reference e' → Image s V e e' → Image s V m t
  /-- Types of one definition, with each argument replaced. A type that is not generic is its own
  definition. -/
  | named {m t : TypeId} {shape : Shape} {d d' : Option TypeId} {as bs : List TypeId} :
      s.form m = .named shape d as → s.form t = .named shape d' bs → s.head t = s.head m →
        (∀ (k : Nat) (a b : TypeId), as[k]? = some a → bs[k]? = some b → Image s V a b) →
        Image s V m t

/-- What a substitution replaces a parameter by. -/
def Substitution.Sends (σ : Substitution) : Valuation :=
  fun x p y => y = (σ.lookup p).getD x

theorem Substitution.Sends.unique {σ : Substitution} {x y y' : TypeId} {p : GenericParameter}
    (h : σ.Sends x p y) (h' : σ.Sends x p y') : y = y' :=
  h.trans h'.symm

namespace Image

variable {s : Store} {V W : Valuation} {m t t' : TypeId}

/-! ### What an image looks like -/

theorem parameter_iff {p : GenericParameter} (hp : (s.info m).shape = .parameter p) :
    Image s V m t ↔ V m p t := by
  have hf := TypeInfo.form_of_parameter hp
  refine ⟨fun h => ?_, .parameter hp⟩
  cases h with
  | parameter hp' hv =>
    rw [hp] at hp'
    cases hp'
    exact hv
  | array hm => exact absurd (hf.symm.trans hm) Form.noConfusion
  | reference hm => exact absurd (hf.symm.trans hm) Form.noConfusion
  | named hm => exact absurd (hf.symm.trans hm) Form.noConfusion

theorem array_iff {e : TypeId} {rank : Nat} (hf : s.form m = .array e rank) :
    Image s V m t ↔ ∃ e', s.form t = .array e' rank ∧ Image s V e e' := by
  refine ⟨fun h => ?_, fun ⟨e', ht, he⟩ => .array hf ht he⟩
  cases h with
  | parameter hp =>
    exact absurd (hf.symm.trans (TypeInfo.form_of_parameter hp)) Form.noConfusion
  | array hm ht he =>
    rw [hf] at hm
    cases hm
    exact ⟨_, ht, he⟩
  | reference hm => exact absurd (hf.symm.trans hm) Form.noConfusion
  | named hm => exact absurd (hf.symm.trans hm) Form.noConfusion

theorem reference_iff {e : TypeId} (hf : s.form m = .reference e) :
    Image s V m t ↔ ∃ e', s.form t = .reference e' ∧ Image s V e e' := by
  refine ⟨fun h => ?_, fun ⟨e', ht, he⟩ => .reference hf ht he⟩
  cases h with
  | parameter hp =>
    exact absurd (hf.symm.trans (TypeInfo.form_of_parameter hp)) Form.noConfusion
  | array hm => exact absurd (hf.symm.trans hm) Form.noConfusion
  | reference hm ht he =>
    rw [hf] at hm
    cases hm
    exact ⟨_, ht, he⟩
  | named hm => exact absurd (hf.symm.trans hm) Form.noConfusion

theorem named_iff {shape : Shape} {d : Option TypeId} {as : List TypeId}
    (hf : s.form m = .named shape d as) :
    Image s V m t ↔ ∃ d' bs, s.form t = .named shape d' bs ∧ s.head t = s.head m ∧
      ∀ (k : Nat) (a b : TypeId), as[k]? = some a → bs[k]? = some b → Image s V a b := by
  refine ⟨fun h => ?_, fun ⟨d', bs, ht, hhead, hargs⟩ => .named hf ht hhead hargs⟩
  cases h with
  | parameter hp =>
    exact absurd (hf.symm.trans (TypeInfo.form_of_parameter hp)) Form.noConfusion
  | array hm => exact absurd (hf.symm.trans hm) Form.noConfusion
  | reference hm => exact absurd (hf.symm.trans hm) Form.noConfusion
  | named hm ht hhead hargs =>
    rw [hf] at hm
    cases hm
    exact ⟨_, _, ht, hhead, hargs⟩

/-- A generic type and its image have as many arguments. -/
theorem length_eq (hs : s.Formed) {shape : Shape} {d d' : Option TypeId} {as bs : List TypeId}
    (hm : s.form m = .named shape d as) (ht : s.form t = .named shape d' bs)
    (hhead : s.head t = s.head m) : bs.length = as.length := by
  obtain ⟨own, hown, hlen⟩ := hs.form_head hm
  obtain ⟨own', hown', hlen'⟩ := hs.form_head ht
  rw [hhead, hown] at hown'
  cases hown'
  exact hlen'.symm.trans hlen

/-- Types of one generic definition are images of each other where their arguments are. -/
theorem of_arguments (hs : s.Formed) {d : TypeId} (ht : s.genericDefinition t = some d)
    (hm : s.genericDefinition m = some d)
    (h : ∀ (k : Nat) (a b : TypeId), (s.info m).arguments[k]? = some a →
      (s.info t).arguments[k]? = some b → Image s V a b) : Image s V m t := by
  obtain ⟨hheadt, hnet⟩ := hs.genericDefinition_eq_some_iff.mp ht
  obtain ⟨hheadm, hnem⟩ := hs.genericDefinition_eq_some_iff.mp hm
  obtain ⟨shape, d, hft⟩ := hs.parts_of_arguments hnet
  obtain ⟨shape', d', hfm⟩ := hs.parts_of_arguments hnem
  obtain ⟨own, hown, -⟩ := hs.form_head hft
  obtain ⟨own', hown', -⟩ := hs.form_head hfm
  rw [hheadt] at hown
  rw [hheadm, hown] at hown'
  cases hown'
  exact .named hfm hft (hheadt.trans hheadm.symm) h

/-! ### Images under different valuations -/

/-- Valuations that agree on the parameters that a type mentions give it the same images. -/
theorem mono (h : Image s V m t)
    (imp : ∀ x p y, s.Mentions m x → (s.info x).shape = .parameter p → V x p y → W x p y) :
    Image s W m t := by
  induction h with
  | parameter hp hv => exact .parameter hp (imp _ _ _ (.of_parameter hp) hp hv)
  | array hm ht _ ih =>
    exact .array hm ht (ih fun x p y hx => imp x p y (.part (Store.element_mem_parts hm) hx))
  | reference hm ht _ ih =>
    exact .reference hm ht (ih fun x p y hx => imp x p y (.part (Store.target_mem_parts hm) hx))
  | named hm ht hhead _ ih =>
    exact .named hm ht hhead fun k a b ha hb => ih k a b ha hb fun x p y hx =>
      imp x p y (.part (Store.argument_mem_parts hm (List.mem_of_getElem? ha)) hx)

/-- **The image is determined** by what the parameters are replaced by. -/
theorem unique (hs : s.Formed) (h : Image s V m t) (h' : Image s W m t')
    (huniq : ∀ x p y y', s.Mentions m x → (s.info x).shape = .parameter p → V x p y →
      W x p y' → y = y') : t = t' := by
  induction h generalizing t' with
  | parameter hp hv =>
    exact huniq _ _ _ _ (.of_parameter hp) hp hv ((parameter_iff hp).mp h')
  | array hm ht _ ih =>
    obtain ⟨e', ht', he'⟩ := (array_iff hm).mp h'
    obtain rfl := ih he' fun x p y y' hx => huniq x p y y' (.part (Store.element_mem_parts hm) hx)
    exact hs.made_once (ht.trans ht'.symm) (by rw [ht]; trivial)
  | reference hm ht _ ih =>
    obtain ⟨e', ht', he'⟩ := (reference_iff hm).mp h'
    obtain rfl := ih he' fun x p y y' hx => huniq x p y y' (.part (Store.target_mem_parts hm) hx)
    exact hs.made_once (ht.trans ht'.symm) (by rw [ht]; trivial)
  | @named m t shape d d' as bs hm ht hhead _ ih =>
    obtain ⟨d'', bs', ht', hhead', hargs'⟩ := (named_iff hm).mp h'
    have hlen := length_eq hs hm ht hhead
    have hlen' := length_eq hs hm ht' hhead'
    obtain rfl : bs = bs' := by
      refine List.ext_getElem (hlen.trans hlen'.symm) fun k hk hk' => ?_
      have hka : k < as.length := hlen ▸ hk
      have ha := List.getElem?_eq_getElem hka
      refine ih k _ _ ha (List.getElem?_eq_getElem hk) ?_ fun x p y y' hx =>
        huniq x p y y' (.part ?_ hx)
      · exact hargs' k _ _ ha (List.getElem?_eq_getElem hk')
      · exact Store.argument_mem_parts hm (List.mem_of_getElem? ha)
    exact hs.eq_of_head_eq ht ht' (hhead.trans hhead'.symm)

/-- **A type is its own image** when the parameters that it mentions stay. -/
theorem self (hs : s.Formed)
    (hstay : ∀ x p, s.Mentions m x → (s.info x).shape = .parameter p → V x p x) :
    Image s V m m := by
  induction m using hs.induction with
  | step m ih =>
    have hpart : ∀ u ∈ s.parts m, Image s V u u := fun u hu =>
      ih u hu fun x p hx => hstay x p (.part hu hx)
    unfold Store.parts at hpart
    cases hf : s.form m with
    | named shape d as =>
      rw [hf] at hpart
      refine .named hf hf rfl fun k a b ha hb => ?_
      rw [ha] at hb
      cases hb
      exact hpart a (List.mem_of_getElem? ha)
    | array e rank =>
      rw [hf] at hpart
      exact .array hf hf (hpart e (List.mem_singleton_self _))
    | reference e =>
      rw [hf] at hpart
      exact .reference hf hf (hpart e (List.mem_singleton_self _))
    | parameter o k =>
      obtain ⟨p, hp, -⟩ := TypeInfo.form_eq_parameter_iff.mp hf
      exact .parameter hp (hstay m p (.of_parameter hp) hp)

/-- A substitution gives a type one image. -/
theorem unique_of_sends {σ : Substitution} (hs : s.Formed) (h : Image s σ.Sends m t)
    (h' : Image s σ.Sends m t') : t = t' :=
  h.unique hs h' fun _ _ _ _ _ _ hy hy' => hy.unique hy'

/-- A type whose parameters stay has no image but itself. -/
theorem eq_self (hs : s.Formed) (h : Image s V m t)
    (hstay : ∀ x p y, s.Mentions m x → (s.info x).shape = .parameter p → V x p y → y = x) :
    t = m :=
  h.unique hs (W := fun x _ y => y = x) (self hs fun _ _ _ _ => rfl)
    fun x p y _ hx hp hv hy' => (hstay x p y hx hp hv).trans hy'.symm

/-! ### What an image mentions -/

/-- **What an image mentions** is mentioned by what a parameter was replaced by. -/
theorem mentions {q : TypeId} (hs : s.Formed) (h : Image s V m t) (hq : s.Mentions t q) :
    ∃ x p y, s.Mentions m x ∧ (s.info x).shape = .parameter p ∧ V x p y ∧ s.Mentions y q := by
  induction h with
  | parameter hp hv => exact ⟨_, _, _, .of_parameter hp, hp, hv, hq⟩
  | @array m t e e' rank hm ht _ ih =>
    cases hq with
    | self hq => exact absurd (ht.symm.trans hq) Form.noConfusion
    | part hu hq =>
      rw [Store.parts, ht] at hu
      obtain rfl := List.mem_singleton.mp hu
      obtain ⟨x, p, y, hx, hrest⟩ := ih hq
      exact ⟨x, p, y, .part (Store.element_mem_parts hm) hx, hrest⟩
  | @reference m t e e' hm ht _ ih =>
    cases hq with
    | self hq => exact absurd (ht.symm.trans hq) Form.noConfusion
    | part hu hq =>
      rw [Store.parts, ht] at hu
      obtain rfl := List.mem_singleton.mp hu
      obtain ⟨x, p, y, hx, hrest⟩ := ih hq
      exact ⟨x, p, y, .part (Store.target_mem_parts hm) hx, hrest⟩
  | @named m t shape d d' as bs hm ht hhead _ ih =>
    cases hq with
    | self hq => exact absurd (ht.symm.trans hq) Form.noConfusion
    | @part _ b _ hu hq =>
      rw [Store.parts, ht] at hu
      obtain ⟨k, hk, hb⟩ := List.mem_iff_getElem.mp hu
      have hka : k < as.length := length_eq hs hm ht hhead ▸ hk
      have ha := List.getElem?_eq_getElem hka
      obtain ⟨x, p, y, hx, hrest⟩ := ih k _ b ha (hb ▸ List.getElem?_eq_getElem hk) hq
      exact ⟨x, p, y, .part (Store.argument_mem_parts hm (List.mem_of_getElem? ha)) hx, hrest⟩

/-- Every parameter that a type mentions is replaced by something, and the image mentions what that
mentions. -/
theorem exists_valued (h : Image s V m t) {x : TypeId} {p : GenericParameter}
    (hx : s.Mentions m x) (hp : (s.info x).shape = .parameter p) (hs : s.Formed) :
    ∃ y, V x p y ∧ ∀ q, s.Mentions y q → s.Mentions t q := by
  induction h with
  | parameter hp' hv =>
    obtain rfl := hx.eq_of_parameter hp'
    rw [hp'] at hp
    cases hp
    exact ⟨_, hv, fun _ hq => hq⟩
  | array hm ht _ ih =>
    cases hx with
    | self hq => exact absurd (hm.symm.trans hq) Form.noConfusion
    | part hu hx =>
      rw [Store.parts, hm] at hu
      obtain rfl := List.mem_singleton.mp hu
      obtain ⟨y, hv, hy⟩ := ih hx
      exact ⟨y, hv, fun q hq => .part (Store.element_mem_parts ht) (hy q hq)⟩
  | reference hm ht _ ih =>
    cases hx with
    | self hq => exact absurd (hm.symm.trans hq) Form.noConfusion
    | part hu hx =>
      rw [Store.parts, hm] at hu
      obtain rfl := List.mem_singleton.mp hu
      obtain ⟨y, hv, hy⟩ := ih hx
      exact ⟨y, hv, fun q hq => .part (Store.target_mem_parts ht) (hy q hq)⟩
  | @named m t shape d d' as bs hm ht hhead _ ih =>
    cases hx with
    | self hq => exact absurd (hm.symm.trans hq) Form.noConfusion
    | @part _ a _ hu hx =>
      rw [Store.parts, hm] at hu
      obtain ⟨k, hk, ha⟩ := List.mem_iff_getElem.mp hu
      have hkb : k < bs.length := length_eq hs hm ht hhead ▸ hk
      have hb := List.getElem?_eq_getElem hkb
      obtain ⟨y, hv, hy⟩ := ih k a _ (ha ▸ List.getElem?_eq_getElem hk) hb hx
      exact ⟨y, hv, fun q hq =>
        .part (Store.argument_mem_parts ht (List.mem_of_getElem? hb)) (hy q hq)⟩

/-- **Two valuations that lead to the same image agree** somewhere on each parameter that is
mentioned. -/
theorem agree (h : Image s V m t) (h' : Image s W m t) {x : TypeId} {p : GenericParameter}
    (hx : s.Mentions m x) (hp : (s.info x).shape = .parameter p) (hs : s.Formed) :
    ∃ y, V x p y ∧ W x p y := by
  induction h with
  | parameter hp' hv =>
    obtain rfl := hx.eq_of_parameter hp'
    obtain rfl := Shape.parameter.inj (hp'.symm.trans hp)
    exact ⟨_, hv, (parameter_iff hp).mp h'⟩
  | array hm ht _ ih =>
    obtain ⟨e', ht', he'⟩ := (array_iff hm).mp h'
    obtain ⟨rfl, -⟩ := Form.array.inj (ht.symm.trans ht')
    cases hx with
    | self hq => exact absurd (hm.symm.trans hq) Form.noConfusion
    | part hu hx =>
      rw [Store.parts, hm] at hu
      obtain rfl := List.mem_singleton.mp hu
      exact ih he' hx
  | reference hm ht _ ih =>
    obtain ⟨e', ht', he'⟩ := (reference_iff hm).mp h'
    obtain rfl := Form.reference.inj (ht.symm.trans ht')
    cases hx with
    | self hq => exact absurd (hm.symm.trans hq) Form.noConfusion
    | part hu hx =>
      rw [Store.parts, hm] at hu
      obtain rfl := List.mem_singleton.mp hu
      exact ih he' hx
  | @named m t shape d d' as bs hm ht hhead _ ih =>
    obtain ⟨d'', bs', ht', -, hargs'⟩ := (named_iff hm).mp h'
    obtain ⟨-, -, rfl⟩ := Form.named.inj (ht.symm.trans ht')
    cases hx with
    | self hq => exact absurd (hm.symm.trans hq) Form.noConfusion
    | @part _ a _ hu hx =>
      rw [Store.parts, hm] at hu
      obtain ⟨k, hk, ha⟩ := List.mem_iff_getElem.mp hu
      have hkb : k < bs.length := length_eq hs hm ht hhead ▸ hk
      have ha : as[k]? = some a := ha ▸ List.getElem?_eq_getElem hk
      have hb := List.getElem?_eq_getElem hkb
      exact ih k a _ ha hb (hargs' k a _ ha hb) hx

/-- **The image of an image** is an image, under a valuation that replaces each parameter by the
image of what it was replaced by. -/
theorem comp (hs : s.Formed) {X : Valuation} (h : Image s V m t) (h' : Image s W t t')
    (hcomp : ∀ x p y z, s.Mentions m x → (s.info x).shape = .parameter p → V x p y →
      Image s W y z → X x p z) : Image s X m t' := by
  induction h generalizing t' with
  | parameter hp hv => exact .parameter hp (hcomp _ _ _ _ (.of_parameter hp) hp hv h')
  | array hm ht _ ih =>
    obtain ⟨e', ht', he'⟩ := (array_iff ht).mp h'
    exact .array hm ht' (ih he' fun x p y z hx =>
      hcomp x p y z (.part (Store.element_mem_parts hm) hx))
  | reference hm ht _ ih =>
    obtain ⟨e', ht', he'⟩ := (reference_iff ht).mp h'
    exact .reference hm ht' (ih he' fun x p y z hx =>
      hcomp x p y z (.part (Store.target_mem_parts hm) hx))
  | @named m t shape d d' as bs hm ht hhead _ ih =>
    obtain ⟨d'', cs, ht', hhead', hargs'⟩ := (named_iff ht).mp h'
    have hlen := length_eq hs ht ht' hhead'
    refine .named hm ht' (hhead'.trans hhead) fun k a c ha hc => ?_
    obtain ⟨hk, -⟩ := List.getElem?_eq_some_iff.mp hc
    have hb := List.getElem?_eq_getElem (hlen ▸ hk)
    exact ih k a _ ha hb (hargs' k _ c hb hc) fun x p y z hx =>
      hcomp x p y z (.part (Store.argument_mem_parts hm (List.mem_of_getElem? ha)) hx)

/-- **Two images of one type are related** as what its parameters are replaced by. -/
theorem between (hs : s.Formed) {X : Valuation} (h : Image s V m t) (h' : Image s W m t')
    (hbetween : ∀ x p y y', s.Mentions m x → (s.info x).shape = .parameter p → V x p y →
      W x p y' → Image s X y y') : Image s X t t' := by
  induction h generalizing t' with
  | parameter hp hv =>
    exact hbetween _ _ _ _ (.of_parameter hp) hp hv ((parameter_iff hp).mp h')
  | array hm ht _ ih =>
    obtain ⟨e', ht', he'⟩ := (array_iff hm).mp h'
    exact .array ht ht' (ih he' fun x p y y' hx =>
      hbetween x p y y' (.part (Store.element_mem_parts hm) hx))
  | reference hm ht _ ih =>
    obtain ⟨e', ht', he'⟩ := (reference_iff hm).mp h'
    exact .reference ht ht' (ih he' fun x p y y' hx =>
      hbetween x p y y' (.part (Store.target_mem_parts hm) hx))
  | @named m t shape d d' as bs hm ht hhead _ ih =>
    obtain ⟨d'', bs', ht', hhead', hargs'⟩ := (named_iff hm).mp h'
    have hlen := length_eq hs hm ht hhead
    refine .named ht ht' (hhead'.trans hhead.symm) fun k b b' hb hb' => ?_
    obtain ⟨hk, -⟩ := List.getElem?_eq_some_iff.mp hb
    have ha := List.getElem?_eq_getElem (hlen ▸ hk)
    exact ih k _ b ha hb (hargs' k _ b' ha hb') fun x p y y' hx =>
      hbetween x p y y' (.part (Store.argument_mem_parts hm (List.mem_of_getElem? ha)) hx)

/-! ### Images in a store that grows -/

/-- **Images persist** when the store grows. -/
theorem of_extends {s' : Store} (hs : s.Formed) (hext : s.Extends s') (hm : s.Holds m)
    (ht : s.Holds t) (h : Image s V m t) : Image s' V m t := by
  induction h with
  | parameter hp hv =>
    refine .parameter ?_ hv
    rw [hext.info_eq hm]
    exact hp
  | @array m t e e' rank hfm hft _ ih =>
    refine .array ((hext.form_eq hm).trans hfm) ((hext.form_eq ht).trans hft) (ih ?_ ?_)
    · exact hs.holds_part (t := m) (Store.element_mem_parts hfm)
    · exact hs.holds_part (t := t) (Store.element_mem_parts hft)
  | @reference m t e e' hfm hft _ ih =>
    refine .reference ((hext.form_eq hm).trans hfm) ((hext.form_eq ht).trans hft) (ih ?_ ?_)
    · exact hs.holds_part (t := m) (Store.target_mem_parts hfm)
    · exact hs.holds_part (t := t) (Store.target_mem_parts hft)
  | @named m t shape d d' as bs hfm hft hhead _ ih =>
    refine .named ((hext.form_eq hm).trans hfm) ((hext.form_eq ht).trans hft) ?_
      fun k a b ha hb => ih k a b ha hb ?_ ?_
    · rw [hext.head_eq ht, hext.head_eq hm, hhead]
    · exact hs.holds_part (t := m) (Store.argument_mem_parts hfm (List.mem_of_getElem? ha))
    · exact hs.holds_part (t := t) (Store.argument_mem_parts hft (List.mem_of_getElem? hb))

/-- An image in a store that grew is an image of the types that were there before. -/
theorem of_extended {s' : Store} (hs : s.Formed) (hext : s.Extends s') (hm : s.Holds m)
    (ht : s.Holds t) (h : Image s' V m t) : Image s V m t := by
  induction h with
  | parameter hp hv =>
    refine .parameter ?_ hv
    rw [← hext.info_eq hm]
    exact hp
  | @array m t e e' rank hfm hft _ ih =>
    rw [hext.form_eq hm] at hfm
    rw [hext.form_eq ht] at hft
    refine .array hfm hft (ih ?_ ?_)
    · exact hs.holds_part (t := m) (Store.element_mem_parts hfm)
    · exact hs.holds_part (t := t) (Store.element_mem_parts hft)
  | @reference m t e e' hfm hft _ ih =>
    rw [hext.form_eq hm] at hfm
    rw [hext.form_eq ht] at hft
    refine .reference hfm hft (ih ?_ ?_)
    · exact hs.holds_part (t := m) (Store.target_mem_parts hfm)
    · exact hs.holds_part (t := t) (Store.target_mem_parts hft)
  | @named m t shape d d' as bs hfm hft hhead _ ih =>
    rw [hext.form_eq hm] at hfm
    rw [hext.form_eq ht] at hft
    rw [hext.head_eq ht, hext.head_eq hm] at hhead
    refine .named hfm hft hhead fun k a b ha hb => ih k a b ha hb ?_ ?_
    · exact hs.holds_part (t := m) (Store.argument_mem_parts hfm (List.mem_of_getElem? ha))
    · exact hs.holds_part (t := t) (Store.argument_mem_parts hft (List.mem_of_getElem? hb))

end Image

end CallSite
