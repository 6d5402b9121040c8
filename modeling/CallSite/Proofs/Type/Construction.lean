import CallSite.Proofs.Type.Image
import CallSite.Proofs.Type.Run

/-!
# Types that are made from types

What `CallSite.substitute`, `construct` and `arrayOf` return: the image of a type under the
substitution, the constructed type, the array. The store grows by what has to be made for it.

* `constructionSpec` – the three, by one induction on the bound of their nesting.
* `grown_complete` – a constructed type is entered first, and what stands above it is worked out
  while its row is there already; at the end the row points to images of what stands above the
  definition.
* `substituteWithin_of_image` – where the image is there already, it is returned and the store is
  left alone.
-/

namespace CallSite

/-! ### Types that are looked up before they are made -/

namespace Store

theorem holds_of_find? {s : Store} {test : TypeInfo → Bool} {t : TypeId}
    (h : s.find? test = some t) : s.Holds t ∧ test (s.info t) := by
  obtain ⟨info, hinfo, htest⟩ := of_find?_eq_some h
  refine ⟨?_, ?_⟩
  · by_contra hcon
    rw [info?, Array.getElem?_eq_none (Nat.le_of_not_lt hcon)] at hinfo
    cases hinfo
  · rw [Store.info, hinfo]
    exact htest

theorem of_find?_eq_none {s : Store} {test : TypeInfo → Bool} (h : s.find? test = none)
    {t : TypeId} (ht : s.Holds t) : test (s.info t) = false := by
  rw [find?, Option.map_eq_none_iff, Array.findIdx?_eq_none_iff] at h
  have hlt : t.index < s.types.size := ht
  have hinfo : s.info t = s.types[t.index] := by
    simp [Store.info, info?, hlt]
  rw [hinfo]
  exact h _ (Array.getElem_mem hlt)

/-- A form that a search for it does not find is not there. -/
theorem form_ne_of_find?_eq_none {s : Store} {test : TypeInfo → Bool} {f : Form}
    (h : s.find? test = none) (htest : ∀ {info : TypeInfo}, info.form = f → test info)
    (hf : f ≠ .named .classType none []) (u : TypeId) : s.form u ≠ f := by
  intro hu
  have hrefused := of_find?_eq_none h (holds_of_form_ne (by rwa [hu]))
  rw [htest hu] at hrefused
  cases hrefused

end Store

theorem Ensures.addType {s : Store} {row : TypeInfo} {post : TypeId → Store → Prop}
    (hgrown : s.Grown (s.add row).2) (h : post s.next (s.add row).2) :
    Ensures (CallSite.addType row) s post :=
  ⟨hgrown, h⟩

/-! ### References -/

theorem ensures_byRef {s : Store} (hs : s.WellFormed) {e : TypeId} (he : s.Holds e) :
    Ensures (byRef e) s fun u s' => s'.Holds u ∧ s'.form u = .reference e := by
  unfold byRef
  refine .get_bind ?_
  split
  case h_1 t ht =>
    obtain ⟨hheld, htest⟩ := Store.holds_of_find? ht
    exact .pure hs ⟨hheld, TypeInfo.form_eq_reference_iff.mpr (of_decide_eq_true htest)⟩
  case h_2 hnone =>
    let row : TypeInfo :=
      { name := (s.info e).name ++ "&", shape := .byRefType e, isSealed := true }
    have hnew : ∀ u, s.form u ≠ .reference e :=
      Store.form_ne_of_find?_eq_none hnone
        (fun hf => decide_eq_true (TypeInfo.form_eq_reference_iff.mp hf)) Form.noConfusion
    have hformed : (s.add row).2.Formed := by
      refine hs.toFormed.add (.reference (Store.form_add_next s row) he ?_) fun _ => hnew
      rw [Store.info_add_next]
      exact ⟨rfl, rfl⟩
    have hwf := hs.add hformed (by rintro u ⟨⟩) (by rintro u ⟨⟩)
    refine .addType ⟨Store.extends_add s _, hwf, fun hsc => hsc.add hs (by rintro u ⟨⟩)⟩ ⟨?_, ?_⟩
    · exact (Store.holds_add s _).mpr (.inr rfl)
    · exact Store.form_add_next s _

/-! ### Constructed types -/

/-- The type is constructed from a definition and arguments. -/
structure Store.IsConstructed (s : Store) (d : TypeId) (args : List TypeId) (u : TypeId) :
    Prop where
  /-- It is held. -/
  holds : s.Holds u
  /-- Its definition is the one given. -/
  head_eq : s.head u = d
  /-- Its arguments are those given. -/
  named : ∃ shape d', s.form u = .named shape d' args

/-- The store is well formed after a row was entered for a type that was not constructed before. -/
theorem grown_add_constructed {s : Store} (hs : s.WellFormed) {d : TypeId} {args : List TypeId}
    (hargs : ∀ a ∈ args, s.Holds a) (hdef : (s.info d).isDefinition)
    (hlen : (s.info d).arguments.length = args.length) (hne : (s.info d).arguments ≠ args)
    (hnone : s.constructed? d args = none) :
    ∃ shape, (constructedInfo (s.info d) d args).form = .named shape (some d) args ∧
      s.Grown (s.add (constructedInfo (s.info d) d args)).2 := by
  obtain ⟨-, hnil⟩ := TypeInfo.isDefinition_iff.mp hdef
  obtain ⟨shape, hf⟩ := hs.form_of_isDefinition hdef
  obtain ⟨hshape, -, -, hkind⟩ := TypeInfo.form_eq_named_iff.mp hf
  have hrow : (constructedInfo (s.info d) d args).form = .named shape (some d) args :=
    TypeInfo.form_eq_named_iff.mpr ⟨hshape, rfl, rfl, hkind⟩
  have hcons : (constructedInfo (s.info d) d args).constraints = [] := by
    have hs' : (constructedInfo (s.info d) d args).shape = shape := hshape
    unfold TypeInfo.constraints
    rw [hs']
    rcases hkind with rfl | rfl | rfl <;> rfl
  have hext := Store.extends_add s (constructedInfo (s.info d) d args)
  have hnew : ∀ u, s.form u ≠ .named shape (some d) args := by
    refine Store.form_ne_of_find?_eq_none hnone (fun hu => ?_) (by rintro ⟨⟩)
    obtain ⟨-, hdu, hau, -⟩ := TypeInfo.form_eq_named_iff.mp hu
    exact decide_eq_true ⟨hdu, hau⟩
  have hformed : (s.add (constructedInfo (s.info d) d args)).2.Formed := by
    refine hs.toFormed.add ?_ fun _ => hrow ▸ hnew
    refine .constructed ((Store.form_add_next s _).trans hrow) hargs (hext.form_eq_of_ne hf ?_) hlen
      hnil hne
    exact fun hcon => hnil (Form.named.inj hcon).2.2
  refine ⟨shape, hrow, hext, ?_, fun hsc => hsc.add hs (by rintro u ⟨⟩)⟩
  refine hs.add hformed (by rintro u ⟨⟩) ?_
  rw [hcons]
  rintro u ⟨⟩

/-- What stands above a constructed type is what stands above its definition, with the parameters
replaced. So it mentions nothing but what the arguments mention. -/
theorem mentions_of_image_above {s : Store} (hs : s.WellFormed) (hsc : s.Scoped) {d t u u' : TypeId}
    {shape : Shape} {own args : List TypeId} (hd : s.form d = .named shape none own)
    (hlen : own.length = args.length) (ht : s.form t = .named shape (some d) args)
    (hu : u ∈ (s.info d).above) (himage : Image s (Substitution.forType d args).Sends u u')
    {q : TypeId} (hq : s.Mentions u' q) : s.Mentions t q := by
  obtain ⟨x, p, y, hx, hp, hy, hyq⟩ := himage.mentions hs.toFormed hq
  obtain ⟨k, hk⟩ := hs.mentions_definition hd (hsc d u hu x hx)
  have hform := hs.own_parameter hd hk
  rw [Store.form, TypeInfo.form_of_parameter hp, Form.parameter.injEq] at hform
  obtain ⟨howner, hpos⟩ := hform
  have hka : k < args.length := by
    rw [← hlen]
    exact (List.getElem?_eq_some_iff.mp hk).1
  have hlookup : (Substitution.forType d args).lookup p = some args[k] := by
    simp [Substitution.lookup, Substitution.forType, howner, hpos, hka]
  have hyk : y = args[k] := by
    rw [hy, hlookup]
    rfl
  exact .part (Store.argument_mem_parts ht (hyk ▸ List.getElem_mem hka)) hyq

/-- What is entered above a type is related to something above the type that it is taken from, if
the bases and the interfaces are related. -/
theorem exists_mem_above {R : TypeId → TypeId → Prop} {info : TypeInfo} {base : Option TypeId}
    {interfaces : List TypeId} (hbase : ∀ b', base = some b' → ∃ b, info.base = some b ∧ R b b')
    (hinterfaces : List.Forall₂ R info.interfaces interfaces) {v : TypeId}
    (hv : v ∈ base.toList ++ interfaces) : ∃ u ∈ info.above, R u v := by
  rcases List.mem_append.mp hv with hv | hv
  · obtain ⟨b, hb, hr⟩ := hbase v (Option.mem_toList.mp hv)
    exact ⟨b, TypeInfo.base_mem_above hb, hr⟩
  · obtain ⟨u, hu, hr⟩ := exists_mem_of_forall₂_right hinterfaces hv
    exact ⟨u, TypeInfo.interface_mem_above hu, hr⟩

/-- **A constructed type is complete** once what stands above it is known: a row was entered for it,
the store has grown since then, and the row is given the images of what stands above the
definition. -/
theorem grown_complete {s s₃ : Store} {d : TypeId} {args : List TypeId}
    (hgrown₁ : s.Grown (s.add (constructedInfo (s.info d) d args)).2)
    (hgrown₃ : (s.add (constructedInfo (s.info d) d args)).2.Grown s₃) {shape : Shape}
    (hrow : (constructedInfo (s.info d) d args).form = .named shape (some d) args)
    (hdef : (s.info d).isDefinition) {base : Option TypeId} {interfaces : List TypeId}
    (habove : ∀ u' ∈ base.toList ++ interfaces, ∃ u ∈ (s.info d).above, s₃.Holds u' ∧
      Image s₃ (Substitution.forType d args).Sends u u') :
    let s₄ := s₃.edit s.next fun row => { row with base := base, interfaces := interfaces }
    s.Grown s₄ ∧ s₄.IsConstructed d args s.next := by
  intro s₄
  have hs₃ := hgrown₃.wellFormed
  have hnext : (s.add (constructedInfo (s.info d) d args)).2.Holds s.next :=
    (Store.holds_add s _).mpr (.inr rfl)
  have hinfo : s₃.info s.next = constructedInfo (s.info d) d args :=
    (hgrown₃.info_eq hnext).trans (Store.info_add_next s _)
  have hform : s₃.form s.next = .named shape (some d) args :=
    (congrArg TypeInfo.form hinfo).trans hrow
  have hsame : s₃.SameForms s₄ := Store.sameForms_edit fun info => ⟨rfl, rfl, rfl⟩
  have hformd : ∃ own, s₃.form d = .named shape none own ∧ own.length = args.length := by
    obtain ⟨own, hown, hrest⟩ := hs₃.constructed hform
    exact ⟨own, hown, hrest.1⟩
  have hheldd := Store.holds_of_isDefinition hdef
  have hinfod : s₃.info d = s.info d := (hgrown₁.trans hgrown₃).info_eq hheldd
  refine ⟨(hgrown₁.trans hgrown₃).edit s.next_not_holds ?_ fun hsc₃ => ?_, ?_⟩
  · refine hs₃.edit hsame ?_ fun u hu => hs₃.holds_constraint (t := s.next) hu
    intro u hu
    obtain ⟨-, -, hheld, -⟩ := habove u hu
    exact hheld
  · obtain ⟨own, hown, hlen'⟩ := hformd
    refine hsc₃.edit hsame fun u' hu' q hq => ?_
    obtain ⟨u, hu, -, himage⟩ := habove u' hu'
    rw [← hinfod] at hu
    exact mentions_of_image_above hs₃ hsc₃ hown hlen' hform hu himage hq
  · refine ⟨hsame.holds_iff.mpr (hgrown₃.holds hnext), ?_, shape, some d, ?_⟩
    · rw [Store.head_of_named ((hsame.form_eq _).trans hform)]
      rfl
    · rw [hsame.form_eq]
      exact hform

/-! ### Arrays -/

/-- An array is looked up once more when its interfaces are known, and made if it is not there. -/
theorem ensures_array {s : Store} (hs : s.WellFormed) {e : TypeId} (he : s.Holds e) {rank : Nat}
    (hrank : 1 ≤ rank) {interfaces : List TypeId}
    (hinterfaces : ∀ u ∈ interfaces, s.Holds u ∧ ∀ q, s.Mentions u q → s.Mentions e q) :
    Ensures (ε := TypeError) (do
      let s ← get
      match s.array? e rank with
      | some t => return t
      | none => addType (arrayInfo s e rank interfaces)) s fun u s' =>
        s'.Holds u ∧ s'.form u = .array e rank := by
  refine .get_bind ?_
  split
  case h_1 t ht =>
    obtain ⟨hheld, htest⟩ := Store.holds_of_find? ht
    exact .pure hs ⟨hheld, TypeInfo.form_eq_array_iff.mpr (of_decide_eq_true htest)⟩
  case h_2 hnone =>
    have hnew : ∀ u, s.form u ≠ .array e rank :=
      Store.form_ne_of_find?_eq_none hnone
        (fun hf => decide_eq_true (TypeInfo.form_eq_array_iff.mp hf)) Form.noConfusion
    have hformed : (s.add (arrayInfo s e rank interfaces)).2.Formed := by
      refine hs.toFormed.add (.array (Store.form_add_next s _) he hrank ?_) fun _ => hnew
      rw [Store.info_add_next]
      exact ⟨rfl, rfl⟩
    have hmem : ∀ u ∈ (arrayInfo s e rank interfaces).above, u = Core.array ∨ u ∈ interfaces :=
      fun u hu => List.mem_cons.mp hu
    have harray : s.Holds Core.array := Nat.lt_trans (by decide) hs.core_lt_size
    have hwf := hs.add hformed
      (fun u hu => (hmem u hu).elim (fun h => h ▸ harray) fun h => (hinterfaces u h).1)
      (by rintro u ⟨⟩)
    refine .addType ⟨Store.extends_add s _, hwf, fun hsc => hsc.add hs fun u hu => ?_⟩ ⟨?_, ?_⟩
    · rcases hmem u hu with rfl | hu
      · exact ⟨harray, fun q hq => absurd hq (Store.not_mentions_of_plain hs.form_array)⟩
      · refine ⟨(hinterfaces u hu).1, fun q hq => .part (u := e) ?_ ?_⟩
        · exact Store.element_mem_parts (Store.form_add_next s _)
        · exact ((Store.extends_add s _).mentions_iff hs.toFormed he).mpr
            ((hinterfaces u hu).2 q hq)
    · exact (Store.holds_add s _).mpr (.inr rfl)
    · exact Store.form_add_next s _

/-! ### The three constructions -/

/-- What a substitution puts in place of parameters is held. -/
def Substitution.HeldBy (σ : Substitution) (s : Store) : Prop :=
  ∀ p u, σ.lookup p = some u → s.Holds u

theorem Substitution.lookup_of_type {p : GenericParameter} {d : TypeId} (h : p.owner = .type d)
    (σ : Substitution) :
    σ.lookup p = if σ.typeOwner = some d then σ.typeArguments[p.position]? else none := by
  unfold lookup
  rw [h]

theorem Substitution.lookup_forType {p : GenericParameter} {d : TypeId} (h : p.owner = .type d)
    (args : List TypeId) : (forType d args).lookup p = args[p.position]? :=
  (lookup_of_type h _).trans (if_pos rfl)

theorem Substitution.lookup_of_method {p : GenericParameter} {m : MethodToken}
    (h : p.owner = .method m) (σ : Substitution) :
    σ.lookup p = if σ.methodOwner = some m then σ.methodArguments[p.position]? else none := by
  unfold lookup
  rw [h]

theorem Substitution.lookup_forType_of_ne {d : TypeId} {p : GenericParameter}
    (h : p.owner ≠ .type d) (arguments : List TypeId) : (forType d arguments).lookup p = none := by
  cases hp : p.owner with
  | type d' =>
    refine (lookup_of_type hp _).trans (if_neg fun heq => h ?_)
    rw [hp, Option.some.inj heq]
  | method m => exact (lookup_of_method hp _).trans (if_neg nofun)

theorem Substitution.lookup_forMethod {m : MethodToken} {p : GenericParameter}
    (h : p.owner = .method m) (arguments : List TypeId) :
    (forMethod m arguments).lookup p = arguments[p.position]? :=
  (lookup_of_method h _).trans (if_pos rfl)

theorem Substitution.lookup_forMethod_of_ne {m : MethodToken} {p : GenericParameter}
    (h : p.owner ≠ .method m) (arguments : List TypeId) :
    (forMethod m arguments).lookup p = none := by
  cases hp : p.owner with
  | type d => exact (lookup_of_type hp _).trans (if_neg nofun)
  | method m' =>
    refine (lookup_of_method hp _).trans (if_neg fun heq => h ?_)
    rw [hp, Option.some.inj heq]

theorem Substitution.HeldBy.forType {s : Store} {d : TypeId} {args : List TypeId}
    (h : ∀ a ∈ args, s.Holds a) : (Substitution.forType d args).HeldBy s := by
  intro p u hu
  cases hp : p.owner with
  | type t =>
    rw [Substitution.lookup_of_type hp] at hu
    split at hu
    · exact h u (List.mem_of_getElem? hu)
    · cases hu
  | method m =>
    rw [Substitution.lookup_of_method hp] at hu
    split at hu
    · cases hu
    · cases hu

theorem Substitution.HeldBy.of_extends {σ : Substitution} {s s' : Store} (h : σ.HeldBy s)
    (hext : s.Extends s') : σ.HeldBy s' :=
  fun p u hu => hext.holds (h p u hu)

theorem Substitution.lookup_of_isEmpty {σ : Substitution} (h : σ.isEmpty) (p : GenericParameter) :
    σ.lookup p = none := by
  simp only [isEmpty, Bool.and_eq_true, List.isEmpty_iff] at h
  unfold lookup
  cases p.owner <;> simp [h.1, h.2]

namespace Store

variable {s : Store}

/-- A constructed type, seen by its form. -/
theorem Formed.form_of_definition (hs : s.Formed) {t d : TypeId}
    (h : (s.info t).definition = some d) :
    ∃ shape, s.form t = .named shape (some d) (s.info t).arguments := by
  by_contra hcon
  have hnone := (hs.unnamed (t := t) fun shape d' arguments hf => hcon ⟨shape, ?_⟩).1
  · rw [h] at hnone
    cases hnone
  · rw [hf, Form.named.injEq]
    obtain ⟨-, hd, harguments, -⟩ := TypeInfo.form_eq_named_iff.mp hf
    exact ⟨rfl, hd.symm.trans h, harguments.symm⟩

/-- A definition is constructed with its own parameters. -/
theorem IsConstructed.own (hs : s.Formed) {d : TypeId} (h : (s.info d).isDefinition) :
    s.IsConstructed d (s.info d).arguments d := by
  obtain ⟨shape, hf⟩ := hs.form_of_isDefinition h
  exact ⟨Store.holds_of_isDefinition h, Store.head_of_named hf, shape, none, hf⟩

/-- What is found among the constructed types is one of them. -/
theorem IsConstructed.of_found (hs : s.Formed) {d t : TypeId} {args : List TypeId} (hne : args ≠ [])
    (h : s.constructed? d args = some t) : s.IsConstructed d args t := by
  obtain ⟨hheld, htest⟩ := Store.holds_of_find? h
  obtain ⟨hd, rfl⟩ := of_decide_eq_true htest
  obtain ⟨shape, d', hf⟩ := hs.parts_of_arguments hne
  refine ⟨hheld, ?_, shape, d', hf⟩
  rw [Store.head, hd]
  rfl

/-- The definition of a constructed type. -/
theorem IsConstructed.form_definition (hs : s.Formed) {d t : TypeId} {args : List TypeId}
    (h : s.IsConstructed d args t) :
    ∃ shape own, s.form d = .named shape none own ∧ own.length = args.length ∧
      ∃ c, s.form t = .named shape c args := by
  obtain ⟨shape, c, hf⟩ := h.named
  obtain ⟨own, hown, hlen⟩ := hs.form_head hf
  rw [h.head_eq] at hown
  exact ⟨shape, own, hown, hlen, c, hf⟩

/-- A constructed type is the image of its definition under its arguments. -/
theorem IsConstructed.image_definition (hs : s.Formed) {d t : TypeId} {args : List TypeId}
    (h : s.IsConstructed d args t) : Image s (Substitution.forType d args).Sends d t := by
  obtain ⟨shape, own, hown, -, c, hf⟩ := h.form_definition hs
  have hhead : s.head t = s.head d := by
    rw [h.head_eq, head_of_named hown]
    rfl
  refine .named hown hf hhead fun k a b ha hb => ?_
  obtain ⟨p, hp, howner, hposition⟩ := TypeInfo.form_eq_parameter_iff.mp (hs.own_parameter hown ha)
  refine .parameter hp ?_
  rw [Substitution.Sends, Substitution.lookup_forType howner, hposition, hb]
  rfl

/-- **The images of the own parameters** of a definition are what a substitution for it puts in
their place. -/
theorem Formed.eq_typeArguments_of_images (hs : s.Formed) {d : TypeId} {shape : Shape}
    {own bs : List TypeId} (hd : s.form d = .named shape none own) {σ : Substitution}
    (howner : σ.typeOwner = some d) (hlen : own.length = σ.typeArguments.length)
    (hbs : bs.length = own.length) (himages : ∀ (k : Nat) (a b : TypeId), own[k]? = some a →
      bs[k]? = some b → Image s σ.Sends a b) : bs = σ.typeArguments := by
  refine List.ext_getElem (hbs.trans hlen) fun k hk hk' => ?_
  have hown := List.getElem?_eq_getElem (hbs ▸ hk)
  obtain ⟨p, hp, howner', hposition⟩ := TypeInfo.form_eq_parameter_iff.mp (hs.own_parameter hd hown)
  have hsent := (Image.parameter_iff hp).mp (himages k _ _ hown (List.getElem?_eq_getElem hk))
  rw [Substitution.Sends, Substitution.lookup_of_type howner', if_pos howner, hposition,
    List.getElem?_eq_getElem hk'] at hsent
  exact hsent

/-- What has a definition is constructed from it. -/
theorem Formed.isConstructed (hs : s.Formed) {d t : TypeId} (h : (s.info t).definition = some d) :
    s.IsConstructed d (s.info t).arguments t := by
  obtain ⟨shape, hf⟩ := hs.form_of_definition h
  refine ⟨holds_of_form_ne ?_, (head_of_named hf).trans rfl, shape, some d, hf⟩
  rw [hf]
  exact fun heq => nomatch heq

end Store

/-- What the three constructions do, with a bound on their nesting. -/
structure ConstructionSpec (depth : Nat) : Prop where
  /-- A substitution yields an image. -/
  substitute : ∀ {σ : Substitution} {t : TypeId} {s : Store}, s.WellFormed → s.Holds t →
    σ.HeldBy s → Ensures (substituteWithin depth σ t) s fun u s' =>
      s'.Holds u ∧ Image s' σ.Sends t u
  /-- A construction yields the constructed type. -/
  construct : ∀ {d : TypeId} {args : List TypeId} {s : Store}, s.WellFormed →
    (∀ a ∈ args, s.Holds a) → Ensures (constructWithin depth d args) s fun u s' =>
      s'.IsConstructed d args u
  /-- An array is an array. -/
  array : ∀ {e : TypeId} {rank : Nat} {s : Store}, s.WellFormed → s.Holds e →
    Ensures (arrayOfWithin depth e rank) s fun u s' =>
      s'.Holds u ∧ s'.form u = .array e (max rank 1)

/-- The types of a list are substituted one by one. -/
theorem ConstructionSpec.substituteAll {depth : Nat} (spec : ConstructionSpec depth)
    {σ : Substitution} {s : Store} (hs : s.WellFormed) (hσ : σ.HeldBy s) {ts : List TypeId}
    (hts : ∀ t ∈ ts, s.Holds t) :
    Ensures (ts.mapM (substituteWithin depth σ)) s fun us s' =>
      List.Forall₂ (fun t u => s'.Holds t ∧ s'.Holds u ∧ Image s' σ.Sends t u) ts us := by
  refine .mapM (P := fun t u s' => s'.Holds t ∧ s'.Holds u ∧ Image s' σ.Sends t u) hs ?_ ts ?_
  · intro t u s' s'' hgrown hs' ⟨ht, hu, himage⟩
    exact ⟨hgrown.holds ht, hgrown.holds hu,
      himage.of_extends hs'.toFormed hgrown.toExtends ht hu⟩
  · intro t ht s' hgrown
    refine (spec.substitute hgrown.wellFormed (hgrown.holds (hts t ht))
      (hσ.of_extends hgrown.toExtends)).imp fun u s'' hgrown' hu => ?_
    exact ⟨hgrown'.holds (hgrown.holds (hts t ht)), hu⟩

section Step

variable {depth : Nat} (spec : ConstructionSpec depth)

include spec

/-- The element of a type is replaced, and a type of the same form is made of what replaces it. -/
theorem ensures_replaceElement {σ : Substitution} {t e : TypeId} {s : Store} (hs : s.WellFormed)
    (ht : s.Holds t) (hσ : σ.HeldBy s) (form : TypeId → Form) (hf : s.form t = form e)
    (he : s.Holds e) {make : TypeId → TypeM TypeId}
    (hmake : ∀ {u s'}, s'.WellFormed → s'.Holds u → Ensures (make u) s' fun v s'' =>
      s''.Holds v ∧ s''.form v = form u)
    (himage : ∀ {s' : Store} {u v}, s'.form t = form e → s'.form v = form u →
      Image s' σ.Sends e u → Image s' σ.Sends t v) :
    Ensures (do
      let u ← substituteWithin depth σ e
      if u = e then return t else make u) s fun u s' => s'.Holds u ∧ Image s' σ.Sends t u := by
  refine (spec.substitute hs he hσ).bind hs fun u s' hgrown hu => ?_
  have hf' := (hgrown.form_eq ht).trans hf
  split
  case isTrue heq =>
    subst heq
    exact .pure hgrown.wellFormed ⟨hgrown.holds ht, himage hf' hf' hu.2⟩
  case isFalse =>
    refine (hmake hgrown.wellFormed hu.1).imp fun v s'' hgrown' hv => ⟨hv.1, ?_⟩
    refine himage ((hgrown'.form_eq (hgrown.holds ht)).trans hf') hv.2 ?_
    exact hu.2.of_extends hgrown.wellFormed.toFormed hgrown'.toExtends (hgrown.holds he) hu.1

/-- The arguments of a type are replaced, and a type of the same definition is constructed from what
replaces them. -/
theorem ensures_replaceArguments {σ : Substitution} {t : TypeId} {s : Store} (hs : s.WellFormed)
    (ht : s.Holds t) (hσ : σ.HeldBy s) {shape : Shape} {d : Option TypeId} {as : List TypeId}
    (hf : s.form t = .named shape d as) :
    Ensures (do
      let us ← as.mapM (substituteWithin depth σ)
      if us = as then return t else constructWithin depth (s.head t) us) s fun u s' =>
        s'.Holds u ∧ Image s' σ.Sends t u := by
  refine (spec.substituteAll hs hσ fun a ha =>
    hs.holds_part (Store.argument_mem_parts hf ha)).bind hs fun us s' hgrown hus => ?_
  have hf' := (hgrown.form_eq ht).trans hf
  have himages : ∀ (k : Nat) (a b : TypeId), as[k]? = some a → us[k]? = some b →
      s'.Holds a ∧ s'.Holds b ∧ Image s' σ.Sends a b := by
    intro k a b ha hb
    obtain ⟨hk, rfl⟩ := List.getElem?_eq_some_iff.mp ha
    obtain ⟨hk', rfl⟩ := List.getElem?_eq_some_iff.mp hb
    exact List.Forall₂.get hus hk hk'
  split
  case isTrue heq =>
    subst heq
    exact .pure hgrown.wellFormed ⟨hgrown.holds ht, .named hf' hf' rfl fun k a b ha hb =>
      (himages k a b ha hb).2.2⟩
  case isFalse =>
    have hheld : ∀ u ∈ us, s'.Holds u := fun u hu => by
      obtain ⟨a, -, -, hu, -⟩ := exists_mem_of_forall₂_right hus hu
      exact hu
    refine (spec.construct hgrown.wellFormed hheld).imp fun v s'' hgrown' hv => ⟨hv.holds, ?_⟩
    have hf'' := (hgrown'.form_eq (hgrown.holds ht)).trans hf'
    have hhead : s''.head v = s''.head t := by
      rw [hv.head_eq, hgrown'.head_eq (hgrown.holds ht), hgrown.head_eq ht]
    obtain ⟨shape', d', hfv⟩ := hv.named
    obtain ⟨own, hown, -⟩ := hgrown'.wellFormed.form_head hf''
    obtain ⟨own', hown', -⟩ := hgrown'.wellFormed.form_head hfv
    rw [hhead, hown] at hown'
    cases hown'
    refine .named hf'' hfv hhead fun k a b ha hb => ?_
    obtain ⟨hha, hhb, himage⟩ := himages k a b ha hb
    exact himage.of_extends hgrown.wellFormed.toFormed hgrown'.toExtends hha hhb

theorem ensures_substituteWithin {σ : Substitution} {t : TypeId} {s : Store} (hs : s.WellFormed)
    (ht : s.Holds t) (hσ : σ.HeldBy s) :
    Ensures (substituteWithin (depth + 1) σ t) s fun u s' =>
      s'.Holds u ∧ Image s' σ.Sends t u := by
  by_cases hempty : σ.isEmpty
  · refine .of_run_eq (substituteWithin_of_isEmpty hempty depth t s) (.pure hs ⟨ht, ?_⟩)
    refine .self hs.toFormed fun x p _ _ => ?_
    rw [Substitution.Sends, Substitution.lookup_of_isEmpty hempty]
    rfl
  cases hf : s.form t with
  | parameter o k =>
    obtain ⟨p, hp, -⟩ := TypeInfo.form_eq_parameter_iff.mp hf
    refine .of_run_eq (substituteWithin_of_parameter hempty hp depth)
      (.pure hs ⟨?_, .parameter hp rfl⟩)
    cases hl : σ.lookup p with
    | none => exact ht
    | some u => exact hσ p u hl
  | array e rank =>
    refine .of_run_eq (substituteWithin_of_array hempty hf depth) ?_
    refine ensures_replaceElement spec hs ht hσ (.array · rank) hf
      (hs.holds_part (t := t) (Store.element_mem_parts hf)) (fun hs' hu => ?_) .array
    have hmake := @ConstructionSpec.array depth spec _ rank _ hs' hu
    rwa [Nat.max_eq_left (hs.rank_pos hf)] at hmake
  | reference e =>
    refine .of_run_eq (substituteWithin_of_reference hempty hf depth) ?_
    exact ensures_replaceElement spec hs ht hσ .reference hf
      (hs.holds_part (t := t) (Store.target_mem_parts hf)) (fun hs' hu => ensures_byRef hs' hu)
      .reference
  | named shape d as =>
    refine .of_run_eq (substituteWithin_of_named hempty hf depth) ?_
    split
    case isTrue hnil =>
      subst hnil
      exact .pure hs ⟨ht, .named hf hf rfl fun k a b ha => by cases ha⟩
    case isFalse => exact ensures_replaceArguments spec hs ht hσ hf

theorem ensures_constructWithin {d : TypeId} {args : List TypeId} {s : Store} (hs : s.WellFormed)
    (hargs : ∀ a ∈ args, s.Holds a) :
    Ensures (constructWithin (depth + 1) d args) s fun u s' => s'.IsConstructed d args u := by
  obtain ⟨⟨e, hrun⟩, -⟩ | ⟨⟨hdef, hlen⟩, ⟨t, hrun, ht⟩ | ⟨hown, hnone, hrun⟩⟩ :=
    constructWithin_cases depth d args s
  · exact .of_run_eq hrun (.throw hs e)
  · refine .of_run_eq hrun (.pure hs ?_)
    obtain ⟨rfl, rfl⟩ | ht := ht
    · exact .own hs.toFormed hdef
    · exact .of_found hs.toFormed (TypeInfo.ne_nil_of_isDefinition hdef hlen) ht
  · obtain ⟨shape, hrow, hgrown₁⟩ := grown_add_constructed hs hargs hdef hlen hown hnone
    refine EnsuresFrom.of_run_eq hrun ?_
    have hσ : (Substitution.forType d args).HeldBy
        (s.add (constructedInfo (s.info d) d args)).2 :=
      .forType fun a ha => hgrown₁.holds (hargs a ha)
    refine Ensures.bind_from hgrown₁ (.option_mapM hgrown₁.wellFormed
      (P := fun b b' s' => s'.Holds b' ∧ Image s' (Substitution.forType d args).Sends b b') _
      fun b hb => spec.substitute hgrown₁.wellFormed
        (hgrown₁.holds (hs.holds_above (TypeInfo.base_mem_above hb))) hσ) ?_
    intro base s₂ hgrown₂ hbase
    refine Ensures.bind_from (hgrown₁.trans hgrown₂) (spec.substituteAll hgrown₂.wellFormed
      (hσ.of_extends hgrown₂.toExtends) fun u hu => hgrown₂.holds
        (hgrown₁.holds (hs.holds_above (TypeInfo.interface_mem_above hu)))) ?_
    intro interfaces s₃ hgrown₃ hinterfaces
    refine grown_complete hgrown₁ (hgrown₂.trans hgrown₃) hrow hdef fun u' hu' =>
      exists_mem_above (fun b' hb' => ?_) (hinterfaces.imp fun _ _ h => h.2) hu'
    obtain ⟨b, hb, hheld', himage⟩ := hbase b' hb'
    have hheld := hgrown₂.holds (hgrown₁.holds (hs.holds_above (TypeInfo.base_mem_above hb)))
    exact ⟨b, hb, hgrown₃.holds hheld',
      himage.of_extends hgrown₂.wellFormed.toFormed hgrown₃.toExtends hheld hheld'⟩

theorem ensures_arrayOfWithin {e : TypeId} {rank : Nat} {s : Store} (hs : s.WellFormed)
    (he : s.Holds e) :
    Ensures (arrayOfWithin (depth + 1) e rank) s fun u s' =>
      s'.Holds u ∧ s'.form u = .array e (max rank 1) := by
  rw [arrayOfWithin]
  refine .get_bind ?_
  split
  case h_1 t ht =>
    obtain ⟨hheld, htest⟩ := Store.holds_of_find? ht
    exact .pure hs ⟨hheld, TypeInfo.form_eq_array_iff.mpr (of_decide_eq_true htest)⟩
  case h_2 =>
    have hrank : 1 ≤ max rank 1 := Nat.le_max_right _ _
    split
    case isTrue =>
      refine (spec.construct hs fun a ha => by rw [List.mem_singleton.mp ha]; exact he).bind hs
        fun u s' hgrown hu => ?_
      refine ensures_array hgrown.wellFormed (hgrown.holds he) hrank fun v hv => ?_
      obtain rfl := List.mem_singleton.mp hv
      obtain ⟨shape, d', hf⟩ := hu.named
      refine ⟨hu.holds, fun q hq => ?_⟩
      cases hq with
      | self hq => exact absurd (hf.symm.trans hq) Form.noConfusion
      | part ha hq =>
        rw [Store.parts, hf] at ha
        rw [← List.mem_singleton.mp ha]
        exact hq
    case isFalse => exact ensures_array hs he hrank (by rintro u ⟨⟩)

end Step

/-- **The three constructions** do what they should, to any nesting. -/
theorem constructionSpec (depth : Nat) : ConstructionSpec depth := by
  induction depth with
  | zero =>
    refine ⟨fun hs _ _ => ?_, fun hs _ => ?_, fun hs _ => ?_⟩
    · rw [substituteWithin]
      exact .get_bind (.throw hs _)
    · rw [constructWithin]
      exact .get_bind (.throw hs _)
    · rw [arrayOfWithin]
      exact .get_bind (.throw hs _)
  | succ depth spec =>
    exact ⟨ensures_substituteWithin spec, ensures_constructWithin spec,
      ensures_arrayOfWithin spec⟩

/-- **A substitution yields an image**, and the store grows by what has to be made for it. -/
theorem ensures_substitute {σ : Substitution} {t : TypeId} {s : Store} (hs : s.WellFormed)
    (ht : s.Holds t) (hσ : σ.HeldBy s) :
    Ensures (substitute σ t) s fun u s' => s'.Holds u ∧ Image s' σ.Sends t u :=
  .get_bind ((constructionSpec _).substitute hs ht hσ)

theorem ensures_construct {d : TypeId} {args : List TypeId} {s : Store} (hs : s.WellFormed)
    (hargs : ∀ a ∈ args, s.Holds a) :
    Ensures (construct d args) s fun u s' => s'.IsConstructed d args u :=
  .get_bind ((constructionSpec _).construct hs hargs)

theorem ensures_arrayOf {e : TypeId} {rank : Nat} {s : Store} (hs : s.WellFormed)
    (he : s.Holds e) :
    Ensures (arrayOf e rank) s fun u s' => s'.Holds u ∧ s'.form u = .array e (max rank 1) :=
  .get_bind ((constructionSpec _).array hs he)

/-! ### Images that are there already -/

theorem find?_eq_some_of_unique {s : Store} {test : TypeInfo → Bool} {t : TypeId}
    (ht : s.Holds t) (htest : test (s.info t)) (huniq : ∀ u, test (s.info u) → u = t) :
    s.find? test = some t := by
  cases h : s.find? test with
  | none =>
    rw [Store.of_find?_eq_none h ht] at htest
    cases htest
  | some u => rw [huniq u (Store.holds_of_find? h).2]

/-- An array that is there is found. -/
theorem arrayOfWithin_of_held {s : Store} (hs : s.Formed) {t e : TypeId} {rank : Nat}
    (ht : s.Holds t) (hf : s.form t = .array e rank) (depth : Nat) :
    arrayOfWithin (depth + 1) e rank s = .ok t s := by
  have hfind : s.array? e (max rank 1) = some t := by
    rw [Nat.max_eq_left (hs.rank_pos hf)]
    refine find?_eq_some_of_unique ht (decide_eq_true (TypeInfo.form_eq_array_iff.mp hf)) ?_
    intro u hu
    have hfu : s.form u = .array e rank := TypeInfo.form_eq_array_iff.mpr (of_decide_eq_true hu)
    exact hs.made_once (hfu.trans hf.symm) (by rw [hfu]; trivial)
  rw [arrayOfWithin, get_bind_apply]
  dsimp only
  rw [hfind]
  rfl

/-- A reference that is there is found. -/
theorem byRef_of_held {s : Store} (hs : s.Formed) {t e : TypeId} (ht : s.Holds t)
    (hf : s.form t = .reference e) : byRef e s = .ok t s := by
  have hfind : s.byRef? e = some t := by
    refine find?_eq_some_of_unique ht (decide_eq_true (TypeInfo.form_eq_reference_iff.mp hf)) ?_
    intro u hu
    have hfu : s.form u = .reference e :=
      TypeInfo.form_eq_reference_iff.mpr (of_decide_eq_true hu)
    exact hs.made_once (hfu.trans hf.symm) (by rw [hfu]; trivial)
  rw [byRef, get_bind_apply, hfind]
  rfl

/-- A generic type that is there is found. -/
theorem constructWithin_of_held {s : Store} (hs : s.Formed) {t : TypeId} {shape : Shape}
    {d : Option TypeId} {args : List TypeId} (ht : s.Holds t) (hne : args ≠ [])
    (hf : s.form t = .named shape d args) (depth : Nat) :
    constructWithin (depth + 1) (s.head t) args s = .ok t s := by
  obtain ⟨own, hown, hlen⟩ := hs.form_head hf
  obtain ⟨-, hdnone, hargs, -⟩ := TypeInfo.form_eq_named_iff.mp hown
  have hnil : own ≠ [] := by
    intro hcon
    rw [hcon] at hlen
    exact hne (List.eq_nil_of_length_eq_zero hlen.symm)
  have hdef : (s.info (s.head t)).isDefinition := TypeInfo.isDefinition_of_form hown hnil
  by_cases hsame : own = args
  · have hhead : s.head (s.head t) = s.head t := by
      rw [Store.head_of_named hown]
      rfl
    have hself : s.head t = t := hs.eq_of_head_eq (hsame ▸ hown) hf hhead
    have hrun := constructWithin_of_own hdef depth
    rw [hargs, hsame] at hrun
    rwa [hself] at hrun ⊢
  -- A type that is not its own definition was constructed, and nothing else was so.
  obtain ⟨c, rfl⟩ : ∃ c, d = some c := by
    cases d with
    | some c => exact ⟨c, rfl⟩
    | none =>
      rw [Store.head_of_named hf] at hown
      cases hf.symm.trans hown
      exact absurd rfl hsame
  have hhead : s.head t = c := Store.head_of_named hf
  rw [hhead] at hargs hdef ⊢
  refine constructWithin_of_found hdef (by rw [hargs, hlen]) (by rwa [hargs]) ?_ depth
  refine find?_eq_some_of_unique ht (decide_eq_true ?_) fun u hu => ?_
  · obtain ⟨-, hdt, hat, -⟩ := TypeInfo.form_eq_named_iff.mp hf
    exact ⟨hdt, hat⟩
  · obtain ⟨hdu, hau⟩ := of_decide_eq_true hu
    obtain ⟨shape', hfu⟩ := hs.form_of_definition hdu
    rw [hau] at hfu
    exact hs.eq_of_head_eq hfu hf ((Store.head_of_named hfu).trans hhead.symm)

theorem Store.size_add_three_le_depthBound (s : Store) : s.size + 3 ≤ s.depthBound :=
  Nat.le_mul_of_pos_left _ (Nat.two_pow_pos 32)

theorem Store.exists_depthBound (s : Store) : ∃ n, s.depthBound = n + 1 :=
  Nat.exists_eq_add_of_le' (Nat.le_trans (Nat.le_add_left 1 _) s.size_add_three_le_depthBound)

theorem construct_of_not_isDefinition {s : Store} {d : TypeId} (args : List TypeId)
    (hdef : ¬ (s.info d).isDefinition) :
    construct d args s = .error (.notDefinition (s.display d)) s := by
  obtain ⟨n, hn⟩ := s.exists_depthBound
  rw [construct, get_bind_apply, hn]
  exact constructWithin_of_not_isDefinition hdef n args

theorem construct_of_length_ne {s : Store} {d : TypeId} {args : List TypeId}
    (hdef : (s.info d).isDefinition)
    (hlen : (s.info d).arguments.length ≠ args.length) :
    construct d args s = .error (.argumentCount (s.display d) (s.info d).arguments.length
      args.length) s := by
  obtain ⟨n, hn⟩ := s.exists_depthBound
  rw [construct, get_bind_apply, hn]
  exact constructWithin_of_length_ne hdef hlen n

/-- **A generic type is constructed from its parts** without a type being made. -/
theorem construct_of_held {s : Store} (hs : s.Formed) {t d : TypeId}
    (ht : s.genericDefinition t = some d) : construct d (s.info t).arguments s = .ok t s := by
  obtain ⟨rfl, hne⟩ := hs.genericDefinition_eq_some_iff.mp ht
  obtain ⟨shape, d', hf⟩ := hs.parts_of_arguments hne
  obtain ⟨n, hn⟩ := s.exists_depthBound
  rw [construct, get_bind_apply, hn]
  exact constructWithin_of_held hs (Store.holds_of_form_ne (by rw [hf]; simp [hne])) hne hf n

theorem substituteWithin_of_image_aux {s : Store} (hs : s.Formed) {σ : Substitution}
    (hσ : ¬ σ.isEmpty) {m t : TypeId} (himage : Image s σ.Sends m t) {depth : Nat}
    (hdepth : s.height m + 2 ≤ depth) (ht : s.Holds t) :
    substituteWithin depth σ m s = .ok t s := by
  obtain ⟨depth, rfl⟩ := Nat.exists_eq_add_of_le' (Nat.le_trans (by omega) hdepth : 2 ≤ depth)
  induction himage generalizing depth with
  | parameter hp hv => rw [substituteWithin_of_parameter hσ hp, hv]
  | @array m t e e' rank hm hft _ ih =>
    have hlt : s.height e < s.height m := hs.height_part (Store.element_mem_parts hm)
    obtain ⟨depth, rfl⟩ : ∃ n, depth = n + 1 := ⟨depth - 1, by omega⟩
    have he' : s.Holds e' := hs.holds_part (t := t) (Store.element_mem_parts hft)
    rw [substituteWithin_of_array hσ hm, bind_apply_of_ok (ih he' depth (by omega))]
    split
    case isTrue heq =>
      subst heq
      rw [hs.made_once (hm.trans hft.symm) (by rw [hm]; trivial)]
      rfl
    case isFalse => exact arrayOfWithin_of_held hs ht hft _
  | @reference m t e e' hm hft _ ih =>
    have hlt : s.height e < s.height m := hs.height_part (Store.target_mem_parts hm)
    obtain ⟨depth, rfl⟩ : ∃ n, depth = n + 1 := ⟨depth - 1, by omega⟩
    have he' : s.Holds e' := hs.holds_part (t := t) (Store.target_mem_parts hft)
    rw [substituteWithin_of_reference hσ hm, bind_apply_of_ok (ih he' depth (by omega))]
    split
    case isTrue heq =>
      subst heq
      rw [hs.made_once (hm.trans hft.symm) (by rw [hm]; trivial)]
      rfl
    case isFalse => exact byRef_of_held hs ht hft
  | @named m t shape d d' as bs hm hft hhead hargs ih =>
    have hlen := Image.length_eq hs hm hft hhead
    have hsame : bs = as → t = m := fun heq => by
      subst heq
      exact hs.eq_of_head_eq hft hm hhead
    rw [substituteWithin_of_named hσ hm]
    split
    case isTrue hnil =>
      subst hnil
      rw [hsame (List.eq_nil_of_length_eq_zero hlen)]
      rfl
    case isFalse hnil =>
      have hreplaced : as.mapM (substituteWithin (depth + 1) σ) s = .ok bs s := by
        refine mapM_of_fixed (List.forall₂_iff_get.mpr ⟨hlen.symm, fun k hk hk' => ?_⟩)
        have hlt : s.height as[k] < s.height m :=
          hs.height_part (Store.argument_mem_parts hm (List.getElem_mem hk))
        obtain ⟨depth, rfl⟩ : ∃ n, depth = n + 1 := ⟨depth - 1, by omega⟩
        refine ih k _ _ (List.getElem?_eq_getElem hk) (List.getElem?_eq_getElem hk') ?_ depth
          (by omega)
        exact hs.holds_part (t := t) (Store.argument_mem_parts hft (List.getElem_mem hk'))
      rw [bind_apply_of_ok hreplaced]
      split
      case isTrue heq =>
        rw [hsame heq]
        rfl
      case isFalse =>
        rw [← hhead]
        refine constructWithin_of_held hs ht (fun hcon => hnil ?_) hft depth
        rw [hcon] at hlen
        exact List.eq_nil_of_length_eq_zero hlen.symm

/-- **Nothing is made** where the image is there: it is returned, and the store stays. -/
theorem substituteWithin_of_image {s : Store} (hs : s.Formed) {σ : Substitution} {m t : TypeId}
    (himage : Image s σ.Sends m t) {depth : Nat} (hdepth : s.height m + 2 ≤ depth)
    (ht : s.Holds t) : substituteWithin depth σ m s = .ok t s := by
  by_cases hσ : σ.isEmpty
  · obtain ⟨depth, rfl⟩ := Nat.exists_eq_add_of_le' (Nat.le_trans (by omega) hdepth : 1 ≤ depth)
    have hself : t = m := himage.eq_self hs fun x p y _ _ hy => by
      rw [Substitution.Sends, Substitution.lookup_of_isEmpty hσ] at hy
      exact hy
    rw [substituteWithin, if_pos hσ, hself]
    rfl
  · exact substituteWithin_of_image_aux hs hσ himage hdepth ht

/-- **What is there is returned** by a substitution that leads to it. -/
theorem substitute_of_image {s : Store} (hs : s.Formed) {σ : Substitution} {m t : TypeId}
    (himage : Image s σ.Sends m t) (hm : s.Holds m) (ht : s.Holds t) :
    substitute σ m s = .ok t s := by
  rw [substitute, get_bind_apply]
  refine substituteWithin_of_image hs himage ?_ ht
  have hle := s.height_le m
  have hlt : m.index < s.size := hm
  have hbound := s.size_add_three_le_depthBound
  omega

end CallSite
