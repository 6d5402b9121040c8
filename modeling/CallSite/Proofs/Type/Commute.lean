import CallSite.Proofs.Type.Hierarchy
import CallSite.Proofs.Type.Check
import CallSite.Proofs.Type.Rank

/-!
# Hierarchies and substitution

A substitution takes the hierarchy above a type to the hierarchy above its image. One step upwards
is the heart of it (`Store.derives_of_image`): the base of a constructed type was made from the base
of the definition under the arguments of the type, so two types of one definition have bases that
are images of one type under different arguments, and where the arguments are images of each other,
so are the bases (`Image.between`). From there both walks upwards follow by induction, the chain of
bases (`Store.BaseChain`) and the steps to declared interfaces.
-/

namespace CallSite

namespace Store

variable {s : Store} {σ : Substitution}

/-! ### One step upwards -/

/-- What a substitution for a definition puts in place of an own parameter. -/
theorem Formed.lookup_own (hs : s.Formed) {d q : TypeId} {shape : Shape} {own : List TypeId}
    (hd : s.form d = .named shape none own) (hq : s.Mentions d q) {p : GenericParameter}
    (hp : (s.info q).shape = .parameter p) :
    ∃ k : Nat, own[k]? = some q ∧ ∀ args, (Substitution.forType d args).lookup p = args[k]? := by
  obtain ⟨k, hk⟩ := hs.mentions_definition hd hq
  have hf := (TypeInfo.form_of_parameter hp).symm.trans (hs.own_parameter hd hk)
  obtain ⟨howner, rfl⟩ := Form.parameter.inj hf
  exact ⟨p.position, hk, Substitution.lookup_forType howner⟩

/-- **Every named type derives from its definition**, a definition from itself. -/
theorem Orderly.derives_head (h : s.Orderly) (hs : s.WellFormed) {t : TypeId} {shape : Shape}
    {d : Option TypeId} {args : List TypeId} (hf : s.form t = .named shape d args) :
    s.Derives (.forType (s.head t) args) (s.head t) t := by
  rw [head_of_named hf]
  cases d with
  | some d => exact h.derives hf
  | none =>
    have hself : ∀ u ∈ (s.info t).above, Image s (Substitution.forType t args).Sends u u := by
      refine fun u hu => .self hs.toFormed fun q p hq hp => ?_
      obtain ⟨k, hk, hlookup⟩ := hs.lookup_own hf (h.in_scope t u hu q hq) hp
      rw [Substitution.Sends, hlookup, hk]
      rfl
    refine ⟨?_, List.forall₂_same.mpr fun u hu => hself u (TypeInfo.interface_mem_above hu)⟩
    change Option.Rel _ (s.info t).base (s.info t).base
    generalize hb : (s.info t).base = o
    cases o with
    | none => exact .none
    | some b => exact .some (hself b (TypeInfo.base_mem_above hb))

/-- What mentions only parameters of a definition has images of each other under lists of arguments
that are images of each other. -/
theorem Formed.image_of_arguments (hs : s.Formed) {d u v w : TypeId} {shape : Shape}
    {own as bs : List TypeId} (hd : s.form d = .named shape none own)
    (has : own.length = as.length) (hbs : own.length = bs.length)
    (hargs : ∀ (k : Nat) (a b : TypeId), as[k]? = some a → bs[k]? = some b →
      Image s σ.Sends a b) (hu : ∀ q, s.Mentions u q → s.Mentions d q)
    (hv : Image s (Substitution.forType d as).Sends u v)
    (hw : Image s (Substitution.forType d bs).Sends u w) : Image s σ.Sends v w := by
  refine hv.between hs hw fun q p a b hq hp ha hb => ?_
  obtain ⟨k, hk, hlookup⟩ := hs.lookup_own hd (hu q hq) hp
  obtain ⟨hlt, -⟩ := List.getElem?_eq_some_iff.mp hk
  have hka := List.getElem?_eq_getElem (has ▸ hlt)
  have hkb := List.getElem?_eq_getElem (hbs ▸ hlt)
  rw [Substitution.Sends, hlookup, hka] at ha
  rw [Substitution.Sends, hlookup, hkb] at hb
  rw [ha, hb]
  exact hargs k _ _ hka hkb

/-- Two types that derive from one definition derive from each other, if the arguments of the one
are images of those of the other. -/
theorem Derives.between (hs : s.WellFormed) (hsc : s.Scoped) {d x y : TypeId} {shape : Shape}
    {own as bs : List TypeId} (hd : s.form d = .named shape none own)
    (has : own.length = as.length) (hbs : own.length = bs.length)
    (hx : s.Derives (.forType d as) d x) (hy : s.Derives (.forType d bs) d y)
    (hargs : ∀ (k : Nat) (a b : TypeId), as[k]? = some a → bs[k]? = some b →
      Image s σ.Sends a b) : s.Derives σ x y := by
  have hbetween : ∀ u ∈ (s.info d).above, ∀ v w, Image s (Substitution.forType d as).Sends u v →
      Image s (Substitution.forType d bs).Sends u w → Image s σ.Sends v w := fun u hu v w =>
    hs.toFormed.image_of_arguments hd has hbs hargs (hsc d u hu)
  exact ⟨rel_between hx.base hy.base fun u hu => hbetween u (TypeInfo.base_mem_above hu),
    forall₂_between hx.interfaces hy.interfaces fun u hu =>
      hbetween u (TypeInfo.interface_mem_above hu)⟩

/-- **Images of named types derive from these.** -/
theorem Orderly.derives_of_named (h : s.Orderly) (hs : s.WellFormed) {x y : TypeId}
    {shape : Shape} {d : Option TypeId} {args : List TypeId} (hf : s.form x = .named shape d args)
    (himage : Image s σ.Sends x y) : s.Derives σ x y := by
  obtain ⟨d', bs, hfy, hhead, hargs⟩ := (Image.named_iff hf).mp himage
  obtain ⟨own, hown, hlen⟩ := hs.form_head hf
  have hx := h.derives_head hs hf
  have hy := h.derives_head hs hfy
  rw [hhead] at hy
  exact .between hs h.in_scope hown hlen
    (hlen.trans (Image.length_eq hs.toFormed hf hfy hhead).symm) hx hy hargs

/-- Types constructed from one definition are images of each other where their arguments are. -/
theorem IsConstructed.image (hs : s.Formed) {d x y : TypeId} {as bs : List TypeId}
    (hx : s.IsConstructed d as x) (hy : s.IsConstructed d bs y)
    (hargs : ∀ (k : Nat) (a b : TypeId), as[k]? = some a → bs[k]? = some b →
      Image s σ.Sends a b) : Image s σ.Sends x y := by
  obtain ⟨shape, c, hf⟩ := hx.named
  obtain ⟨shape', c', hf'⟩ := hy.named
  obtain ⟨own, hown, -⟩ := hs.form_head hf
  obtain ⟨own', hown', -⟩ := hs.form_head hf'
  rw [hx.head_eq] at hown
  rw [hy.head_eq, hown] at hown'
  cases hown'
  exact .named hf hf' (hy.head_eq.trans hx.head_eq.symm) hargs

/-- Where nothing stands above either of two types, they derive from each other. -/
theorem Derives.of_above_eq_nil {x y : TypeId} (hx : (s.info x).above = [])
    (hy : (s.info y).above = []) : s.Derives σ x y := by
  obtain ⟨hbase, hinterfaces⟩ := List.append_eq_nil_iff.mp hx
  obtain ⟨hbase', hinterfaces'⟩ := List.append_eq_nil_iff.mp hy
  refine ⟨?_, ?_⟩
  · rw [Option.toList_eq_nil_iff.mp hbase, Option.toList_eq_nil_iff.mp hbase']
    exact .none
  · rw [hinterfaces, hinterfaces']
    exact .nil

/-- **What stands above an image** is an image of what stands above the type, if every type is
complete. Only a bare parameter may have an image that it has nothing to do with. -/
theorem Orderly.derives_of_image (h : s.Orderly) (hs : s.WellFormed)
    (hcomplete : ∀ t, s.Complete t) {x y : TypeId} (hx : ∀ o k, s.form x ≠ .parameter o k)
    (himage : Image s σ.Sends x y) : s.Derives σ x y := by
  cases hf : s.form x with
  | named shape d args => exact h.derives_of_named hs hf himage
  | array e rank =>
    obtain ⟨e', hfy, he⟩ := (Image.array_iff hf).mp himage
    refine ⟨?_, List.forall₂_iff_get.mpr ⟨?_, fun k hk hk' => ?_⟩⟩
    · rw [(hcomplete x).array_base hf, (hcomplete y).array_base hfy]
      refine .some (.self hs.toFormed fun q _ hq _ => ?_)
      exact absurd hq (not_mentions_of_plain hs.form_array)
    · rw [(hcomplete x).array_length hf, (hcomplete y).array_length hfy]
    · have hu := (hcomplete x).array_interfaces hf _ (List.get_mem _ ⟨k, hk⟩)
      have hv := (hcomplete y).array_interfaces hfy _ (List.get_mem _ ⟨k, hk'⟩)
      refine hu.image hs.toFormed hv fun i a b ha hb => ?_
      obtain rfl := List.mem_singleton.mp (List.mem_of_getElem? ha)
      obtain rfl := List.mem_singleton.mp (List.mem_of_getElem? hb)
      exact he
  | reference e =>
    obtain ⟨e', hfy, -⟩ := (Image.reference_iff hf).mp himage
    exact .of_above_eq_nil ((hcomplete x).reference hf) ((hcomplete y).reference hfy)
  | parameter o k => exact absurd hf (hx o k)

/-! ### Chains of bases -/

/-- **A chain of bases** that ends: a type, its base, the base of its base, and so on. -/
inductive BaseChain (s : Store) : TypeId → List TypeId → Prop
  /-- A type without a base. -/
  | last {t : TypeId} : (s.info t).base = none → BaseChain s t [t]
  /-- A type before the chain of its base. -/
  | step {t b : TypeId} {l : List TypeId} :
      (s.info t).base = some b → BaseChain s b l → BaseChain s t (t :: l)

namespace BaseChain

variable {t : TypeId} {l : List TypeId}

theorem unique (h : s.BaseChain t l) {l' : List TypeId} (h' : s.BaseChain t l') : l = l' := by
  induction h generalizing l' with
  | last hnone =>
    cases h' with
    | last => rfl
    | step hb => exact absurd (hnone.symm.trans hb) (Option.some_ne_none _).symm
  | step hb _ ih =>
    cases h' with
    | last hnone => exact absurd (hnone.symm.trans hb) (Option.some_ne_none _).symm
    | step hb' h' =>
      obtain rfl := Option.some.inj (hb.symm.trans hb')
      rw [ih h']

/-- A type of the chain begins a chain that is not longer. -/
theorem of_mem (h : s.BaseChain t l) {a : TypeId} (ha : a ∈ l) :
    ∃ l', s.BaseChain a l' ∧ l'.length ≤ l.length := by
  induction h with
  | last hnone =>
    obtain rfl := List.mem_singleton.mp ha
    exact ⟨_, .last hnone, Nat.le_refl _⟩
  | step hb hchain ih =>
    rcases List.mem_cons.mp ha with rfl | ha
    · exact ⟨_, .step hb hchain, Nat.le_refl _⟩
    · obtain ⟨l', hl', hle⟩ := ih ha
      exact ⟨l', hl', Nat.le_succ_of_le hle⟩

theorem head_mem (h : s.BaseChain t l) : t ∈ l := by
  cases h <;> exact List.mem_cons_self

/-- The base of a type of the chain is in the chain. -/
theorem base_mem (h : s.BaseChain t l) {a b : TypeId} (ha : a ∈ l)
    (hb : (s.info a).base = some b) : b ∈ l := by
  induction h with
  | last hnone =>
    obtain rfl := List.mem_singleton.mp ha
    exact absurd (hnone.symm.trans hb) (Option.some_ne_none _).symm
  | step hbase hchain ih =>
    rcases List.mem_cons.mp ha with rfl | ha
    · obtain rfl := Option.some.inj (hbase.symm.trans hb)
      exact List.mem_cons_of_mem _ hchain.head_mem
    · exact List.mem_cons_of_mem _ (ih ha)

/-- A chain that ends does not come back. -/
theorem not_mem_tail {b : TypeId} (hb : (s.info t).base = some b) (h : s.BaseChain b l) :
    t ∉ l := by
  intro ht
  obtain ⟨l', hl', hle⟩ := h.of_mem ht
  rw [hl'.unique (.step hb h), List.length_cons] at hle
  exact Nat.not_succ_le_self _ hle

theorem ancestorsWithin_eq (h : s.BaseChain t l) {n : Nat} {met : List TypeId}
    (hmet : ∀ a ∈ l, a ∉ met) (hn : s.unmet met ≤ n) :
    s.ancestorsWithin n met t = l := by
  induction h generalizing n met with
  | last hnone =>
    cases n with
    | zero => rfl
    | succ n => rw [ancestorsWithin, hnone]
  | @step t b l hb hchain ih =>
    have ht : s.Holds t := by
      refine not_not.mp fun hcon => ?_
      rw [info_of_not_holds hcon] at hb
      cases hb
    have hlt : s.unmet (t :: met) < s.unmet met :=
      unmet_lt (List.subset_cons_self t met) ht (hmet t List.mem_cons_self) List.mem_cons_self
    obtain ⟨n, rfl⟩ := Nat.exists_eq_add_of_le' (Nat.le_trans (Nat.zero_lt_of_lt hlt) hn)
    have hrest : ∀ a ∈ l, a ∉ t :: met := by
      intro a ha hin
      rcases List.mem_cons.mp hin with rfl | hin
      · exact not_mem_tail hb hchain ha
      · exact hmet a (List.mem_cons_of_mem _ ha) hin
    rw [ancestorsWithin, hb]
    dsimp only
    rw [if_neg (hrest b hchain.head_mem), ih hrest (by omega)]

/-- **The chain is what is listed.** -/
theorem ancestors_eq (h : s.BaseChain t l) : s.ancestors t = l :=
  h.ancestorsWithin_eq (fun _ _ => List.not_mem_nil) (s.unmet_nil ▸ Nat.le_refl _)

theorem of_extends {s' : Store} (h : s.BaseChain t l) (hs : s.WellFormed) (hext : s.Extends s')
    (ht : s.Holds t) : s'.BaseChain t l := by
  induction h with
  | last hnone => exact .last (by rw [hext.info_eq ht]; exact hnone)
  | step hb _ ih =>
    exact .step (by rw [hext.info_eq ht]; exact hb)
      (ih (hs.holds_above (TypeInfo.base_mem_above hb)))

end BaseChain

/-! ### Hierarchies that agree -/

section Related

variable {R : TypeId → TypeId → Prop} {x y : TypeId}

/-- Types that are related have chains of related bases, if their bases are related. -/
theorem BaseChain.related (hbase : ∀ x y, R x y → Option.Rel R (s.info x).base (s.info y).base)
    {l : List TypeId} (h : s.BaseChain x l) (hR : R x y) :
    ∃ l', s.BaseChain y l' ∧ List.Forall₂ R l l' := by
  induction h generalizing y with
  | @last x hnone =>
    have hrel := hbase x y hR
    rw [hnone] at hrel
    generalize hb : (s.info y).base = o at hrel
    cases hrel
    exact ⟨[y], .last hb, .cons hR .nil⟩
  | @step x b l hb _ ih =>
    have hrel := hbase x y hR
    rw [hb] at hrel
    generalize hb' : (s.info y).base = o at hrel
    cases hrel with
    | some h =>
      obtain ⟨l', hl', hall⟩ := ih h
      exact ⟨y :: l', .step hb' hl', .cons hR hall⟩

/-- What can be reached from related types is related, if each step has a step on the other side. -/
theorem reached_related {r : TypeId → TypeId → Prop}
    (hstep : ∀ x y u, R x y → r x u → ∃ v, r y v ∧ R u v) (hR : R x y) {u : TypeId}
    (hu : Relation.ReflTransGen r x u) : ∃ v, Relation.ReflTransGen r y v ∧ R u v := by
  induction hu with
  | refl => exact ⟨y, .refl, hR⟩
  | tail _ hlast ih =>
    obtain ⟨v, hv, hR'⟩ := ih
    obtain ⟨w, hw, hR''⟩ := hstep _ v _ hR' hlast
    exact ⟨w, hv.tail hw, hR''⟩

variable (hbase : ∀ x y, R x y → Option.Rel R (s.info x).base (s.info y).base)
  (hinterfaces : ∀ x y, R x y → List.Forall₂ R (s.info x).interfaces (s.info y).interfaces)

include hbase hinterfaces

/-- **Each interface of a type is related to one of a related type.** -/
theorem exists_interface_related (hs : s.WellFormed) (hR : R x y) {f : TypeId}
    (hf : f ∈ s.allInterfaces x) : ∃ f' ∈ s.allInterfaces y, R f f' := by
  have hstep : ∀ x y b, R x y → s.BaseOf x b → ∃ b', s.BaseOf y b' ∧ R b b' := by
    intro x y b hR hb
    have hrel := hbase x y hR
    rw [show (s.info x).base = some b from hb] at hrel
    generalize hb' : (s.info y).base = o at hrel
    cases hrel with
    | some h => exact ⟨_, hb', h⟩
  obtain ⟨a, ha, u, hu, hf⟩ := (mem_allInterfaces_iff hs).mp hf
  obtain ⟨a', ha', hR⟩ := reached_related hstep hR ((mem_ancestors_iff hs).mp ha)
  obtain ⟨u', hu', hR'⟩ := exists_mem_of_forall₂ (hinterfaces a a' hR) hu
  obtain ⟨f', hf', hR''⟩ := reached_related (fun x y u hR hu =>
    exists_mem_of_forall₂ (hinterfaces x y hR) hu) hR' hf
  exact ⟨f', (mem_allInterfaces_iff hs).mpr ⟨a', (mem_ancestors_iff hs).mpr ha', u', hu', hf'⟩,
    hR''⟩

/-- **All interfaces of types that are related**: each of the one is related to one of the other. -/
theorem allInterfaces_related (hs : s.WellFormed) (hR : R x y) :
    (∀ f ∈ s.allInterfaces x, ∃ f' ∈ s.allInterfaces y, R f f') ∧
      ∀ f' ∈ s.allInterfaces y, ∃ f ∈ s.allInterfaces x, R f f' :=
  ⟨fun _ => exists_interface_related hbase hinterfaces hs hR, fun _ =>
    exists_interface_related (R := fun y x => R x y) (fun y x hR => rel_flip (hbase x y hR))
      (fun y x hR => (hinterfaces x y hR).flip) hs hR⟩

end Related

end Store

/-! ### The hierarchy of a constructed type -/

open Store in
/-- **Hierarchies commute with construction.** After an orderly run that leaves arrays and
references alone, a construction that does not expand without end gives a type whose ancestors are
those of the definition with the parameters replaced, in order, and whose interfaces are those of
the definition with the parameters replaced. The replaced types are all there: to replace the
parameters adds nothing to the store. Where hierarchies end no construction expands without end
(`not_isEndless_of_ends`). -/
theorem hierarchy_of_construct {s : Store}
    (hreach : s.Reachable fun s op => op.Orderly s ∧ op.LeavesMade s) {d : TypeId}
    {args : List TypeId} (hargs : ∀ a ∈ args, s.Holds a) (hdef : (s.info d).isDefinition)
    (harity : (s.info d).arguments.length = args.length) (hends : ∃ l, s.BaseChain d l)
    (hfinite : ∀ e s', construct d args s = .error e s' → ¬ e.IsEndless) :
    ∃ c s', construct d args s = .ok c s' ∧
      (s'.ancestors d).mapM (substitute (.forType d args)) s' = .ok (s'.ancestors c) s' ∧
      ∃ fs, (s'.allInterfaces d).mapM (substitute (.forType d args)) s' = .ok fs s' ∧
        ∀ f, f ∈ s'.allInterfaces c ↔ f ∈ fs := by
  have hs := hreach.wellFormed
  have hbuilds := builds_construct hs hargs hdef harity
  cases hrun : construct d args s with
  | error e s' => exact absurd (hbuilds.of_error hrun).2 (hfinite e s' hrun)
  | ok c s' =>
  obtain ⟨hgrown, hcompleted, hc⟩ := hbuilds.of_ok hrun
  have hs' := hgrown.wellFormed
  have horderly := (hreach.mono fun _ _ h => h.1).orderly_store.of_grown hs hgrown hcompleted
  have hcomplete := hcompleted.complete hs hgrown.toExtends hreach.complete_store
  have hd := holds_of_isDefinition hdef
  have hd' := hgrown.holds hd
  -- The relation along both hierarchies: images of types that are no bare parameters.
  let R : TypeId → TypeId → Prop := fun x y =>
    Image s' (Substitution.forType d args).Sends x y ∧ ∀ o k, s'.form x ≠ .parameter o k
  have hbase : ∀ x y, R x y → Option.Rel R (s'.info x).base (s'.info y).base := fun x y hR =>
    rel_imp_of_mem (horderly.derives_of_image hs' hcomplete hR.2 hR.1).base fun _ _ hb _ himage =>
      ⟨himage, horderly.not_parameter (TypeInfo.base_mem_above hb)⟩
  have hinterfaces : ∀ x y, R x y → List.Forall₂ R (s'.info x).interfaces (s'.info y).interfaces :=
    fun x y hR => forall₂_imp_of_mem
      (horderly.derives_of_image hs' hcomplete hR.2 hR.1).interfaces fun _ hu _ _ himage =>
        ⟨himage, horderly.not_parameter (TypeInfo.interface_mem_above hu)⟩
  have hR : R d c := by
    obtain ⟨shape, own, hown, -⟩ := hc.form_definition hs'.toFormed
    exact ⟨hc.image_definition hs'.toFormed, fun o k hf => Form.noConfusion (hown.symm.trans hf)⟩
  have hrun : ∀ {x y}, s'.Holds x → s'.Holds y → R x y →
      substitute (.forType d args) x s' = .ok y s' := fun hx hy hR =>
    substitute_of_image hs'.toFormed hR.1 hx hy
  obtain ⟨l, hl⟩ := hends
  obtain ⟨l', hl', hall⟩ := (hl.of_extends hs hgrown.toExtends hd).related hbase hR
  rw [← hl'.ancestors_eq, ← (hl.of_extends hs hgrown.toExtends hd).ancestors_eq] at hall
  refine ⟨c, s', rfl, mapM_of_fixed (forall₂_imp_of_mem hall fun a ha b hb hab =>
    hrun ((upward_of_mem_ancestors ha).holds hs' hd')
      ((upward_of_mem_ancestors hb).holds hs' hc.holds) hab), ?_⟩
  obtain ⟨hforth, hback⟩ := allInterfaces_related hbase hinterfaces hs' hR
  obtain ⟨fs, hfs⟩ := exists_forall₂ hforth
  refine ⟨fs, mapM_of_fixed (forall₂_imp_of_mem hfs fun f hf f' _ hff' =>
    hrun ((upward_of_mem_allInterfaces hf).holds hs' hd')
      ((upward_of_mem_allInterfaces hff'.1).holds hs' hc.holds) hff'.2), fun f' => ⟨fun hf' => ?_,
    fun hf' => ?_⟩⟩
  · obtain ⟨f, hf, hR'⟩ := hback f' hf'
    obtain ⟨g, hg, -, hR''⟩ := exists_mem_of_forall₂ hfs hf
    rwa [hR'.1.unique hs'.toFormed hR''.1 fun _ _ _ _ _ _ hy hy' => hy.unique hy']
  · obtain ⟨f, -, hmem, -⟩ := exists_mem_of_forall₂_right hfs hf'
    exact hmem

/-! ### A hierarchy that commutes, and one that does not -/

open Operation in
/-- A run that makes a generic class which derives from another one and can be walked through. -/
def derivedRun : List Operation :=
  [.define "Base" .classKind ["T"], .define "Derived" .classKind ["T"], .construct ⟨27⟩ [⟨30⟩],
    .setBase ⟨29⟩ ⟨31⟩, .construct Core.enumerableOf [⟨30⟩], .addInterface ⟨29⟩ ⟨32⟩]

theorem reachable_derivedRun : (Store.initial.afterAll derivedRun).Reachable fun s op =>
    op.Orderly s ∧ op.LeavesMade s :=
  .of_orderlyRun (by decide +kernel)

/-- Its hierarchies end: what is constructed above a definition has the arguments of the
definition. -/
theorem ends_derivedRun : (Store.initial.afterAll derivedRun).Ends :=
  Store.ends_of_isRanked reachable_derivedRun.wellFormed (by decide +kernel) (fun _ => 0)
    (by decide +kernel)

/-- What is derived from boxes and walked through commutes with its construction for integers. -/
theorem hierarchy_of_construct_derived :
    ∃ c s', construct ⟨29⟩ [Core.int32] (Store.initial.afterAll derivedRun) = .ok c s' ∧
      (s'.ancestors ⟨29⟩).mapM (substitute (.forType ⟨29⟩ [Core.int32])) s' =
        .ok (s'.ancestors c) s' ∧
      ∃ fs, (s'.allInterfaces ⟨29⟩).mapM (substitute (.forType ⟨29⟩ [Core.int32])) s' =
        .ok fs s' ∧ ∀ f, f ∈ s'.allInterfaces c ↔ f ∈ fs := by
  have hargs : ∀ a ∈ [Core.int32], (Store.initial.afterAll derivedRun).Holds a := fun a ha => by
    obtain rfl := List.mem_singleton.mp ha
    change Core.int32.index < (Store.initial.afterAll derivedRun).size
    decide +kernel
  exact hierarchy_of_construct reachable_derivedRun hargs (by decide +kernel)
    (by decide +kernel) ⟨_, .step (b := ⟨31⟩) (by decide +kernel) (.step (b := ⟨0⟩)
      (by decide +kernel) (.last (by decide +kernel)))⟩
    fun e s' => not_isEndless_of_ends reachable_derivedRun.wellFormed ends_derivedRun hargs

/-- A run that sets a base above a reference to a generic parameter, and makes that reference the
base of the definition. -/
def referenceRun : List Operation :=
  [.define "Box" .classKind ["T"], .byRef ⟨28⟩, .setBase ⟨29⟩ Core.object, .setBase ⟨27⟩ ⟨29⟩]

/-- **References must be left alone as well**: what was set above a reference to a parameter is not
found above the reference that takes its place. -/
theorem hierarchy_differs_above_reference :
    ((Store.initial.afterAll referenceRun).Reachable fun s op => op.Orderly s ∧
      ∀ t u, op.placed? = some (t, u) → ∀ e rank, s.form t ≠ .array e rank) ∧
    (∃ l, (Store.initial.afterAll referenceRun).BaseChain ⟨27⟩ l) ∧
    ∃ c s', construct ⟨27⟩ [Core.int32] (Store.initial.afterAll referenceRun) = .ok c s' ∧
      (s'.ancestors ⟨27⟩).mapM (substitute (.forType ⟨27⟩ [Core.int32])) s' ≠
        .ok (s'.ancestors c) s' := by
  refine ⟨.of_checkRun
    (fun s op => op.isOrderly s && op.placesOn (fun f => !f matches .array _ _) s)
    (fun s op hs hvalid h => ?_) .initial (by decide +kernel), ⟨_, .step (b := ⟨29⟩)
    (by decide +kernel) (.step (b := ⟨0⟩) (by decide +kernel) (.last (by decide +kernel)))⟩, ?_⟩
  · obtain ⟨horderly, hplaces⟩ := Bool.and_eq_true_iff.mp h
    refine ⟨.of_check hs.toFormed hvalid horderly, fun t u hplaced e rank hf => ?_⟩
    have hnot := op.of_placesOn hplaces hplaced
    rw [hf] at hnot
    cases hnot
  · have hdiffer : (match construct ⟨27⟩ [Core.int32] (Store.initial.afterAll referenceRun) with
        | .ok c s' =>
          match (s'.ancestors ⟨27⟩).mapM (substitute (.forType ⟨27⟩ [Core.int32])) s' with
          | .ok us _ => decide (us ≠ s'.ancestors c)
          | .error _ _ => false
        | .error _ _ => false) = true := by decide +kernel
    cases hrun : construct ⟨27⟩ [Core.int32] (Store.initial.afterAll referenceRun) with
    | error e s' =>
      rw [hrun] at hdiffer
      cases hdiffer
    | ok c s' =>
      refine ⟨c, s', rfl, fun heq => ?_⟩
      rw [hrun] at hdiffer
      dsimp only at hdiffer
      rw [heq] at hdiffer
      exact of_decide_eq_true hdiffer rfl

end CallSite
