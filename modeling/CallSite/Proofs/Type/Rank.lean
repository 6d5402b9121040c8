import CallSite.Proofs.Type.Ending

/-!
# Definitions that are ranked

That hierarchies end is seen from the definitions alone where they can be ranked: what stands above
a definition and mentions its parameters is made from definitions of a lower rank, or from one of
the same rank and from the parameters as they are. So `Number<T>` may have the interface
`IEquatable<Number<T>>`, and `A<T>` may not have the base `A<A<T>>`.

* `Store.Ranked` – the ranks of definitions.
* `Store.Ranked.ends` – with ranks hierarchies end. Along a path of types that need each other the
  rank goes down, or the arguments stay; so no definition occurs twice, and there are fewer
  definitions than numbers for types.
* `Store.isRanked` – the test for ranks, with `Store.ends_of_isRanked`.
-/

namespace CallSite

namespace Store

/-- What is made from a definition and arguments **ranks below** a definition, or beside it with the
parameters as they are. -/
def RanksBelow (s : Store) (rank : TypeId → Nat) (d c : TypeId) (as : List TypeId) : Prop :=
  rank c < rank d ∨ rank c = rank d ∧ as = (s.info d).arguments

instance (s : Store) (rank : TypeId → Nat) (d c : TypeId) (as : List TypeId) :
    Decidable (s.RanksBelow rank d c as) :=
  inferInstanceAs (Decidable (_ ∨ _))

/-- **Definitions are ranked**: whatever occurs above a definition and mentions a parameter ranks
below it. -/
structure Ranked (s : Store) (rank : TypeId → Nat) : Prop where
  /-- A generic type. -/
  named : ∀ {d w p : TypeId} {shape : Shape} {c : Option TypeId} {as : List TypeId},
    (s.info d).isDefinition → w ∈ (s.info d).above → s.Contains w p →
    s.form p = .named shape c as → s.isOpen p → s.RanksBelow rank d (s.head p) as
  /-- What an array of one dimension is walked through as. -/
  array : ∀ {d w p e : TypeId}, (s.info d).isDefinition → w ∈ (s.info d).above → s.Contains w p →
    s.form p = .array e 1 → s.isOpen e → s.RanksBelow rank d Core.enumerableOf [e]

/-! ### Types that need each other -/

section Needs

variable {s s' : Store} {t u d p : TypeId} {as bs : List TypeId}

theorem Contains.of_extended (h : s'.Contains t u) (hs : s.Formed) (hext : s.Extends s')
    (ht : s.Holds t) : s.Contains t u := by
  have hboth : s.Contains t u ∧ s.Holds u := by
    induction h with
    | refl => exact ⟨.refl, ht⟩
    | tail _ hpart ih =>
      rw [hext.parts_eq ih.2] at hpart
      exact ⟨ih.1.tail hpart, hs.holds_part hpart⟩
  exact hboth.1

/-- What occurs above the definition of a type occurred there before the type was made. -/
theorem occurs_of_extended (hs : s.WellFormed) (hs' : s'.WellFormed) (hext : s.Extends s')
    (hd : (s'.info t).definition = some d) (hheld : s.Holds d) {w : TypeId}
    (hw : w ∈ (s'.info (s'.head t)).above) (hp : s'.Contains w p) :
    w ∈ (s.info d).above ∧ s.Contains w p ∧ s.Holds p := by
  rw [(hs'.isConstructed hd).head_eq, hext.info_eq hheld] at hw
  have hcontains := hp.of_extended hs.toFormed hext (hs.holds_above hw)
  exact ⟨hw, hcontains, hcontains.holds hs.toFormed (hs.holds_above hw)⟩

theorem isDefinition_of_extended (hs' : s'.WellFormed) (hext : s.Extends s')
    (hd : (s'.info t).definition = some d) (hheld : s.Holds d) : (s.info d).isDefinition := by
  obtain ⟨shape, hf⟩ := hs'.form_of_definition hd
  obtain ⟨own, hown, -, hnil, -⟩ := hs'.constructed hf
  exact hext.info_eq hheld ▸ TypeInfo.isDefinition_of_form hown hnil

/-- What a substitution changes is open. -/
theorem isOpen_of_image (hs : s.Formed) (hs' : s'.Formed) (hext : s.Extends s') (hp : s.Holds p)
    {σ : Substitution} (himage : Image s' σ.Sends p u) (hne : u ≠ p) : s.isOpen p := by
  by_contra hclosed
  refine hne (himage.eq_self hs' fun x _ _ hx _ _ => ?_)
  have hmentions := (hext.mentions_iff hs hp).mp hx
  exact absurd hmentions (hs.not_mentions_of_not_isOpen hp (Bool.eq_false_iff.mpr hclosed) x)

/-- The images of the own parameters of a definition are the arguments of a type that is constructed
from it. -/
theorem eq_arguments_of_images (hs : s.Formed) (hd : (s.info t).definition = some d)
    (hlen : bs.length = (s.info d).arguments.length)
    (himages : ∀ (k : Nat) a b, (s.info d).arguments[k]? = some a → bs[k]? = some b →
      Image s (s.instantiation t).Sends a b) : bs = (s.info t).arguments := by
  have hmade := hs.isConstructed hd
  obtain ⟨shape, own, hown, hlength, -⟩ := hmade.form_definition hs
  rw [arguments_of_named hown] at hlen himages
  exact hs.eq_typeArguments_of_images hown (congrArg some hmade.head_eq) hlength hlen himages

end Needs

/-! ### Ranks along a path -/

/-- A type stands **below** another one: its definition has a lower rank, or the same rank and it
has the same arguments. -/
def Below (s : Store) (rank : TypeId → Nat) (u t : TypeId) : Prop :=
  rank (s.head u) < rank (s.head t) ∨
    rank (s.head u) = rank (s.head t) ∧ (s.info u).arguments = (s.info t).arguments

theorem Below.trans {s : Store} {rank : TypeId → Nat} {u t v : TypeId} (h : s.Below rank u t)
    (h' : s.Below rank t v) : s.Below rank u v := by
  rcases h with hlt | ⟨heq, hargs⟩ <;> rcases h' with hlt' | ⟨heq', hargs'⟩
  · exact .inl (Nat.lt_trans hlt hlt')
  · exact .inl (heq' ▸ hlt)
  · exact .inl (heq ▸ hlt')
  · exact .inr ⟨heq.trans heq', hargs.trans hargs'⟩

instance (s : Store) (rank : TypeId → Nat) : Trans (s.Below rank) (s.Below rank) (s.Below rank) :=
  ⟨Below.trans⟩

/-- Two types of one definition have the same rank, so where one stands below the other they have
the same arguments. -/
theorem Below.eq_of_head_eq {s : Store} {rank : TypeId → Nat} {u t d d' : TypeId}
    (h : s.Below rank u t) (hs : s.WellFormed) (hd : (s.info u).definition = some d)
    (hd' : (s.info t).definition = some d') (hhead : s.head u = s.head t) : u = t := by
  have hargs : (s.info u).arguments = (s.info t).arguments :=
    h.elim (fun hlt => absurd hlt (hhead ▸ Nat.lt_irrefl _)) And.right
  obtain ⟨shape, hf⟩ := hs.form_of_definition hd
  obtain ⟨shape', hf'⟩ := hs.form_of_definition hd'
  rw [← hargs] at hf'
  exact hs.eq_of_head_eq hf hf' hhead

namespace Ranked

variable {s s' : Store} {rank : TypeId → Nat}

section Needs

variable {t u d w p : TypeId} (h : s.Ranked rank) (hs : s.WellFormed) (hs' : s'.WellFormed)
  (hext : s.Extends s') (hd : (s'.info t).definition = some d) (hheld : s.Holds d)

include h hs hs' hext hd hheld

/-- The image of a generic type above a definition stands below a type of this definition. -/
theorem below_of_image (hw : w ∈ (s'.info (s'.head t)).above) (hcontains : s'.Contains w p)
    {shape : Shape} {c : Option TypeId} {as : List TypeId} (hf : s'.form p = .named shape c as)
    (himage : Image s' (s'.instantiation t).Sends p u) (hne : u ≠ p) : s'.Below rank u t := by
  obtain ⟨hw, hcontains, hp⟩ := occurs_of_extended hs hs' hext hd hheld hw hcontains
  obtain ⟨c', bs, hfu, hhead, himages⟩ := (Image.named_iff hf).mp himage
  have hlen := Image.length_eq hs'.toFormed hf hfu hhead
  have hopen := isOpen_of_image hs.toFormed hs'.toFormed hext hp himage hne
  rw [hext.form_eq hp] at hf
  rw [Below, hhead, hext.head_eq hp, (hs'.isConstructed hd).head_eq]
  refine (h.named (isDefinition_of_extended hs' hext hd hheld) hw hcontains hf hopen).imp_right
    fun ⟨hrank, has⟩ => ⟨hrank, ?_⟩
  rw [has, ← hext.info_eq hheld] at himages hlen
  rw [arguments_of_named hfu]
  exact eq_arguments_of_images hs'.toFormed hd hlen himages

/-- What the image of an array above a definition is walked through as stands below a type of this
definition. -/
theorem below_of_enumerable (hw : w ∈ (s'.info (s'.head t)).above) (hcontains : s'.Contains w p)
    {e e' : TypeId} (hf : s'.form p = .array e 1)
    (himage : Image s' (s'.instantiation t).Sends e e') (hne : e' ≠ e)
    (hmade : s'.IsConstructed Core.enumerableOf [e'] u) : s'.Below rank u t := by
  obtain ⟨hw, hcontains, hp⟩ := occurs_of_extended hs hs' hext hd hheld hw hcontains
  rw [hext.form_eq hp] at hf
  have hopen := isOpen_of_image hs.toFormed hs'.toFormed hext
    (hs.holds_part (element_mem_parts hf)) himage hne
  obtain ⟨shape, c, hfu⟩ := hmade.named
  rw [Below, hmade.head_eq, (hs'.isConstructed hd).head_eq]
  refine (h.array (isDefinition_of_extended hs' hext hd hheld) hw hcontains hf hopen).imp_right
    fun ⟨hrank, he⟩ => ⟨hrank, ?_⟩
  rw [← hext.info_eq hheld] at he
  rw [arguments_of_named hfu]
  refine eq_arguments_of_images hs'.toFormed hd (by rw [← he]; rfl) fun k a b ha hb => ?_
  rw [← he] at ha
  cases k with
  | zero =>
    cases ha
    cases hb
    exact himage
  | succ k => cases ha

/-- **What a type needs stands below it.** -/
theorem below_of_needs (hneeds : s'.Needs t u) : s'.Below rank u t := by
  cases hneeds with
  | image hw hcontains hf himage hne =>
    exact h.below_of_image hs hs' hext hd hheld hw hcontains hf himage hne
  | enumerable hw hcontains hf himage hne hmade =>
    exact h.below_of_enumerable hs hs' hext hd hheld hw hcontains hf himage hne hmade

end Needs

/-- **With ranks hierarchies end**, if there are fewer types than numbers for them. -/
theorem ends (h : s.Ranked rank) (hs : s.WellFormed) (hsize : s.size < idLimit) : s.Ends := by
  intro s' hext hs' ts hpath
  have hbelow : ts.Pairwise (s'.Below rank) :=
    (hpath.needed.imp_of_mem_imp fun u t _ ht hneeds => by
      obtain ⟨-, d, hd, hheld⟩ := hpath.constructed t ht
      exact h.below_of_needs hs hs' hext hd hheld hneeds).pairwise
  -- So no definition occurs twice, and each was there at first.
  have hheads : (ts.map fun t => (s'.head t).index).Nodup := by
    refine List.pairwise_map.mpr ((hbelow.and hpath.nodup).imp_of_mem ?_)
    rintro u t hu ht ⟨hbelow, hne⟩ heq
    obtain ⟨-, d, hd, -⟩ := hpath.constructed u hu
    obtain ⟨-, d', hd', -⟩ := hpath.constructed t ht
    exact hne (hbelow.eq_of_head_eq hs' hd hd' (congrArg TypeId.mk heq))
  have hsub : (ts.map fun t => (s'.head t).index) ⊆ List.range s.size := by
    intro k hk
    obtain ⟨t, ht, rfl⟩ := List.mem_map.mp hk
    obtain ⟨-, d, hd, hheld⟩ := hpath.constructed t ht
    rw [(hs'.isConstructed hd).head_eq]
    exact List.mem_range.mpr hheld
  have hle := (List.subperm_of_subset hheads hsub).length_le
  rw [List.length_map, List.length_range] at hle
  exact Nat.lt_of_le_of_lt hle hsize

end Ranked

/-! ### Ranks that can be checked -/

/-- A type, its parts, and what these contain, to a depth. -/
def containedWithin (s : Store) : Nat → TypeId → List TypeId
  | 0, t => [t]
  | depth + 1, t => t :: (s.parts t).flatMap (s.containedWithin depth)

theorem Contains.mem_containedWithin {s : Store} (hs : s.Formed) {t u : TypeId}
    (h : s.Contains t u) {depth : Nat} (hdepth : s.height t ≤ depth) :
    u ∈ s.containedWithin depth t := by
  induction depth generalizing t with
  | zero =>
    rcases h.cases_head with rfl | ⟨v, hv, -⟩
    · exact List.mem_singleton_self _
    · exact absurd (Nat.lt_of_lt_of_le (hs.height_part hv) hdepth) (Nat.not_lt_zero _)
  | succ depth ih =>
    rcases h.cases_head with rfl | ⟨v, hv, hrest⟩
    · exact List.mem_cons_self
    · refine List.mem_cons_of_mem _ (List.mem_flatMap.mpr ⟨v, hv, ih hrest ?_⟩)
      exact Nat.le_of_lt_succ (Nat.lt_of_lt_of_le (hs.height_part hv) hdepth)

/-- The test whether a type that occurs above a definition ranks below it. -/
def ranksBelow (s : Store) (rank : TypeId → Nat) (d p : TypeId) : Bool :=
  match s.form p with
  | .named _ _ as => !s.isOpen p || decide (s.RanksBelow rank d (s.head p) as)
  | .array e 1 => !s.isOpen e || decide (s.RanksBelow rank d Core.enumerableOf [e])
  | _ => true

/-- The test whether definitions are ranked. -/
def isRanked (s : Store) (rank : TypeId → Nat) : Bool :=
  (List.range s.size).all fun k => !(s.info ⟨k⟩).isDefinition ||
    (s.info ⟨k⟩).above.all fun w => (s.containedWithin s.size w).all (s.ranksBelow rank ⟨k⟩)

theorem Ranked.of_check {s : Store} (hs : s.WellFormed) {rank : TypeId → Nat}
    (h : s.isRanked rank) : s.Ranked rank := by
  have hranks : ∀ {d w p : TypeId}, (s.info d).isDefinition → w ∈ (s.info d).above →
      s.Contains w p → s.ranksBelow rank d p := fun {d w p} hdef hw hp => by
    have hd := List.all_eq_true.mp h d.index (List.mem_range.mpr (holds_of_isDefinition hdef))
    rw [Bool.or_eq_true, Bool.not_eq_true'] at hd
    have hall := hd.resolve_left (by rw [hdef]; decide)
    exact List.all_eq_true.mp (List.all_eq_true.mp hall w hw) p
      (hp.mem_containedWithin hs.toFormed (Nat.le_trans (s.height_le w) (hs.holds_above hw)))
  refine ⟨fun hdef hw hp hf hopen => ?_, fun hdef hw hp hf hopen => ?_⟩
  · have hbelow := hranks hdef hw hp
    rw [ranksBelow, hf] at hbelow
    simpa [hopen] using hbelow
  · have hbelow := hranks hdef hw hp
    rw [ranksBelow, hf] at hbelow
    simpa [hopen] using hbelow

/-- **Hierarchies end** where ranks pass the test. -/
theorem ends_of_isRanked {s : Store} (hs : s.WellFormed) (hsize : s.size < idLimit)
    (rank : TypeId → Nat) (h : s.isRanked rank) : s.Ends :=
  (Ranked.of_check hs h).ends hs hsize

end Store

end CallSite
