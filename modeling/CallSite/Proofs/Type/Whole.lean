import CallSite.Proofs.Type.Commute

/-!
# Constructions are all or nothing

A constructed type is entered before what stands above it is known, and that may need further types,
which are entered in the same way. None of them is left half made: whatever a construction enters
before it returns is **whole** (`Store.Whole`), a copy of the row of its definition with the
parameters replaced in what stands above it. Nothing can go wrong on the way, because the parts of a
type that is there have the right number of arguments. So a construction fails at once, with the
store as it was, or not at all (`construct_all_or_nothing`). That it returns is known where
hierarchies end (`not_isEndless_of_ends`).

What stands above comes from the types that are complete (`Store.CompletedBy`); the rest of a row is
copied when it is entered and never changed (`Store.CopiesRows`).
-/

namespace CallSite

/-- A row without what stands above the type. -/
def TypeInfo.bare (info : TypeInfo) : TypeInfo :=
  { info with base := none, interfaces := [] }

/-- What stands above a definition is not copied. -/
theorem constructedInfo_congr {info info' : TypeInfo} (h : info'.bare = info.bare) (d : TypeId)
    (args : List TypeId) : constructedInfo info' d args = constructedInfo info d args :=
  congrArg (fun row => { row with definition := some d, arguments := args }) h

namespace Store

variable {s s' s'' : Store}

/-! ### Rows are copied -/

/-- **What is constructed copies the row of its definition**, whatever stands above it, and the rows
that are there stay. -/
structure CopiesRows (s s' : Store) : Prop where
  /-- No type is lost. -/
  holds : ∀ {t}, s.Holds t → s'.Holds t
  /-- Rows stay. -/
  bare_eq : ∀ {t}, s.Holds t → (s'.info t).bare = (s.info t).bare
  /-- A new row with a definition is a copy of the row of that definition. -/
  copied : ∀ {t d}, s'.Holds t → ¬ s.Holds t → (s'.info t).definition = some d →
    s'.Holds d ∧ (s'.info t).bare = constructedInfo (s'.info d) d (s'.info t).arguments

namespace CopiesRows

instance : Std.Refl CopiesRows :=
  ⟨fun _ => ⟨id, fun _ => rfl, fun h hn => absurd h hn⟩⟩

theorem trans (h : s.CopiesRows s') (h' : s'.CopiesRows s'') : s.CopiesRows s'' where
  holds ht := h'.holds (h.holds ht)
  bare_eq ht := (h'.bare_eq (h.holds ht)).trans (h.bare_eq ht)
  copied := by
    intro t d ht hn hd
    by_cases ht' : s'.Holds t
    · have hbare := h'.bare_eq ht'
      obtain ⟨-, -, -, -, -, -, hdefinition, harguments⟩ := TypeInfo.mk.inj hbare
      obtain ⟨hheld, hcopy⟩ := h.copied ht' hn (hdefinition.symm.trans hd)
      refine ⟨h'.holds hheld, ?_⟩
      rw [hbare, hcopy, harguments, constructedInfo_congr (h'.bare_eq hheld)]
    · exact h'.copied ht ht' hd

instance : IsTrans Store CopiesRows :=
  ⟨fun _ _ _ => trans⟩

/-- An appended row that is the copy of a definition, or has none. -/
theorem add {row : TypeInfo} (hrow : ∀ d, row.definition = some d →
    s.Holds d ∧ row.bare = constructedInfo (s.info d) d row.arguments) :
    s.CopiesRows (s.add row).2 where
  holds := (extends_add s row).holds
  bare_eq ht := by rw [(extends_add s row).info_eq ht]
  copied := by
    intro t d ht hn hd
    obtain rfl := ((holds_add s row).mp ht).resolve_left hn
    rw [info_add_next] at hd ⊢
    obtain ⟨hheld, hcopy⟩ := hrow d hd
    rw [(extends_add s row).info_eq hheld]
    exact ⟨(extends_add s row).holds hheld, hcopy⟩

theorem of_step (h : s.BuildStep s') : s.CopiesRows s' := by
  cases h with
  | plain hnone _ =>
    refine add fun d hd => ?_
    rw [hnone] at hd
    cases hd
  | constructed args hdef =>
    refine add fun d hd => ?_
    obtain rfl := Option.some.inj hd
    exact ⟨holds_of_isDefinition hdef, rfl⟩
  | above t base interfaces =>
    have hbare : ∀ u, ((s.edit t fun row => { row with base, interfaces }).info u).bare =
        (s.info u).bare := by
      intro u
      obtain hinfo | ⟨-, -, hinfo⟩ := info_edit_cases s t (fun row => { row with base, interfaces })
        u
      · rw [hinfo]
      · rw [hinfo]
        rfl
    have hholds : ∀ u, (s.edit t fun row => { row with base, interfaces }).Holds u ↔ s.Holds u :=
      fun u => by rw [Holds, Holds, size_edit]
    exact ⟨(hholds _).mpr, fun _ => hbare _, fun ht hn => absurd ((hholds _).mp ht) hn⟩

end CopiesRows

/-! ### Whole types -/

/-- **A constructed type is whole**: it has the name, the kind and the flags of its definition, and
above it stands what stands above the definition, with the arguments in place of the parameters.
These types are all there already. -/
structure Whole (s : Store) (t d : TypeId) : Prop where
  /-- The name. -/
  name_eq : (s.info t).name = (s.info d).name
  /-- The kind. -/
  shape_eq : (s.info t).shape = (s.info d).shape
  /-- Whether anything derives from it. -/
  isSealed_eq : (s.info t).isSealed = (s.info d).isSealed
  /-- Whether it can be made without arguments. -/
  hasDefaultConstructor_eq :
    (s.info t).hasDefaultConstructor = (s.info d).hasDefaultConstructor
  /-- The base. -/
  base : (s.info d).base.mapM (substitute (.forType d (s.info t).arguments)) s =
    .ok (s.info t).base s
  /-- The interfaces, in order. -/
  interfaces : (s.info d).interfaces.mapM (substitute (.forType d (s.info t).arguments)) s =
    .ok (s.info t).interfaces s

/-- **What was completed and copied is whole.** -/
theorem CompletedBy.whole (hs' : s'.WellFormed) (hcompleted : s.CompletedBy s')
    (hcopies : s.CopiesRows s') {t d : TypeId} (ht : s'.Holds t) (hn : ¬ s.Holds t)
    (hd : (s'.info t).definition = some d) : s'.Whole t d := by
  obtain ⟨hheld, hcopy⟩ := hcopies.copied ht hn hd
  obtain ⟨hname, hshape, hsealed, hconstructor, -⟩ := TypeInfo.mk.inj hcopy
  obtain ⟨shape, hf⟩ := hs'.form_of_definition hd
  have hderives := (hcompleted t ht hn).1.constructed hf
  refine ⟨hname, hshape, hsealed, hconstructor, ?_, ?_⟩
  · refine option_mapM_of_fixed (rel_imp_of_mem hderives.base fun u u' hu hu' himage => ?_)
    exact substitute_of_image hs'.toFormed himage (hs'.holds_above (TypeInfo.base_mem_above hu))
      (hs'.holds_above (TypeInfo.base_mem_above hu'))
  · refine mapM_of_fixed (forall₂_imp_of_mem hderives.interfaces fun u hu u' hu' himage => ?_)
    exact substitute_of_image hs'.toFormed himage
      (hs'.holds_above (TypeInfo.interface_mem_above hu))
      (hs'.holds_above (TypeInfo.interface_mem_above hu'))

end Store

/-! ### Constructions -/

/-- What is asked for what cannot be is refused, and the store stays. -/
theorem construct_refused {s : Store} {d : TypeId} {args : List TypeId}
    (hbad : (s.info d).isDefinition = false ∨ (s.info d).arguments.length ≠ args.length) :
    ∃ e, construct d args s = .error e s := by
  by_cases hdef : (s.info d).isDefinition
  · rw [hdef, Bool.true_eq_false, false_or] at hbad
    exact ⟨_, construct_of_length_ne hdef hbad⟩
  · exact ⟨_, construct_of_not_isDefinition args hdef⟩

/-- **A construction is all or nothing.** One that is asked for what cannot be is refused and leaves
the store as it was. Any other one that returns has succeeded, and every constructed type that it
entered on the way is whole. To replace parameters never fails. -/
theorem construct_all_or_nothing {allowed : Store → Operation → Prop} {s : Store}
    (hreach : s.Reachable allowed) {d : TypeId} {args : List TypeId}
    (hargs : ∀ a ∈ args, s.Holds a)
    (hreturns : ∀ e s', construct d args s = .error e s' → ¬ e.IsEndless) :
    ((∃ e s', construct d args s = .error e s') ↔
      (s.info d).isDefinition = false ∨ (s.info d).arguments.length ≠ args.length) ∧
    (∀ e s', construct d args s = .error e s' → s' = s) ∧
    (∀ c s', construct d args s = .ok c s' → s'.IsConstructed d args c ∧
      ∀ t d', s'.Holds t → ¬ s.Holds t → (s'.info t).definition = some d' → s'.Whole t d') ∧
    ∀ σ t, σ.HeldBy s → s.Holds t → ∀ e s', substitute σ t s = .error e s' → e.IsEndless := by
  have hs := hreach.wellFormed
  have hsubstitute : ∀ σ t, σ.HeldBy s → s.Holds t → ∀ e s', substitute σ t s = .error e s' →
      e.IsEndless := fun σ t hσ ht e s' h => ((builds_substitute hs ht hσ).of_error h).2
  by_cases hasked : (s.info d).isDefinition ∧ (s.info d).arguments.length = args.length
  · have hbuilds := builds_construct hs hargs hasked.1 hasked.2
    have hnot : ∀ e s', construct d args s ≠ .error e s' :=
      fun e s' h => hreturns e s' h (hbuilds.of_error h).2
    refine ⟨⟨fun ⟨e, s', h⟩ => absurd h (hnot e s'), fun hbad => ?_⟩,
      fun e s' h => absurd h (hnot e s'), fun c s' h => ?_, hsubstitute⟩
    · rw [hasked.1, Bool.true_eq_false, false_or] at hbad
      exact absurd hasked.2 hbad
    · obtain ⟨hgrown, hcompleted, hconstructed⟩ := hbuilds.of_ok h
      have hcopies := along_construct (fun _ _ => Store.CopiesRows.of_step) d args s
      rw [storeAfter_of_ok h] at hcopies
      exact ⟨hconstructed, fun t d' ht hn hd => hcompleted.whole hgrown.wellFormed hcopies ht hn hd⟩
  · have hbad : (s.info d).isDefinition = false ∨ (s.info d).arguments.length ≠ args.length := by
      rw [not_and_or, Bool.not_eq_true] at hasked
      exact hasked
    obtain ⟨e, he⟩ := construct_refused hbad
    refine ⟨iff_of_true ⟨e, s, he⟩ hbad, fun e' s' h => ?_, fun c s' h => ?_, hsubstitute⟩
    · rw [he] at h
      cases h
      rfl
    · rw [he] at h
      cases h

/-- A run that makes a generic class of nodes, which derives from another generic class and can be
compared with nodes of its own kind. -/
def nodeRun : List Operation :=
  [.define "Base" .classKind ["T"], .define "Node" .classKind ["T"], .construct ⟨27⟩ [⟨30⟩],
    .setBase ⟨29⟩ ⟨31⟩, .construct Core.equatable [⟨29⟩], .addInterface ⟨29⟩ ⟨32⟩]

/-- A node of integers is entered together with its base and with its interface, which names the
node itself, and all three are whole. With two arguments no node is made. -/
theorem construct_whole_node :
    (∃ c s', construct ⟨29⟩ [Core.int32] (Store.initial.afterAll nodeRun) = .ok c s' ∧
      c = ⟨33⟩ ∧ s'.size = 36 ∧
      s'.Whole ⟨33⟩ ⟨29⟩ ∧ s'.Whole ⟨34⟩ ⟨27⟩ ∧ s'.Whole ⟨35⟩ Core.equatable) ∧
    ∃ e, construct ⟨29⟩ [Core.int32, Core.string] (Store.initial.afterAll nodeRun) =
      .error e (Store.initial.afterAll nodeRun) := by
  have hreach : (Store.initial.afterAll nodeRun).Reachable fun s op => op.Scoped s :=
    .of_scopedRun (by decide +kernel)
  have hbefore : (Store.initial.afterAll nodeRun).size = 33 := by decide +kernel
  have hheld : ∀ a ∈ [Core.int32, Core.string], (Store.initial.afterAll nodeRun).Holds a := by
    have hlt : ∀ a ∈ [Core.int32, Core.string], a.index < 33 := by decide
    exact fun a ha => Store.holds_of_size_eq hbefore (hlt a ha)
  have hone : ∀ a ∈ [Core.int32], (Store.initial.afterAll nodeRun).Holds a :=
    fun a ha => hheld a (List.mem_cons.mpr (.inl (List.mem_singleton.mp ha)))
  -- A node stands below itself with the parameter as it is, and all else has a lower rank.
  have hends : (Store.initial.afterAll nodeRun).Ends :=
    Store.ends_of_isRanked hreach.wellFormed (by decide +kernel)
      (fun t => if t = ⟨29⟩ then 1 else 0) (by decide +kernel)
  have hnode := construct_all_or_nothing hreach (d := ⟨29⟩) hone
    fun e s' => not_isEndless_of_ends hreach.wellFormed hends hone
  have htwo := construct_all_or_nothing hreach (d := ⟨29⟩) hheld
    fun e s' => not_isEndless_of_ends hreach.wellFormed hends hheld
  constructor
  · have hsucceeds : succeedsWith (construct ⟨29⟩ [Core.int32]) (Store.initial.afterAll nodeRun)
        (fun c s' => c = ⟨33⟩ ∧ s'.size = 36 ∧ (s'.info ⟨33⟩).definition = some ⟨29⟩ ∧
          (s'.info ⟨34⟩).definition = some ⟨27⟩ ∧
          (s'.info ⟨35⟩).definition = some Core.equatable) := by decide +kernel
    obtain ⟨c, s', hrun, hresult⟩ := exists_of_succeedsWith hsucceeds
    obtain ⟨hc, hsize, hnode', hbase, hequatable⟩ := of_decide_eq_true hresult
    have hwhole := (hnode.2.2.1 c s' hrun).2
    have hnew : ∀ t : TypeId, 33 ≤ t.index → t.index < 36 →
        s'.Holds t ∧ ¬ (Store.initial.afterAll nodeRun).Holds t := by
      intro t hge hlt
      rw [← hbefore] at hge
      exact ⟨Store.holds_of_size_eq hsize hlt, Nat.not_lt_of_le hge⟩
    obtain ⟨h33, h33'⟩ := hnew ⟨33⟩ (by decide) (by decide)
    obtain ⟨h34, h34'⟩ := hnew ⟨34⟩ (by decide) (by decide)
    obtain ⟨h35, h35'⟩ := hnew ⟨35⟩ (by decide) (by decide)
    exact ⟨c, s', hrun, hc, hsize, hwhole _ _ h33 h33' hnode', hwhole _ _ h34 h34' hbase,
      hwhole _ _ h35 h35' hequatable⟩
  · obtain ⟨e, s', he⟩ := htwo.1.mpr (.inr (by decide +kernel))
    obtain rfl := htwo.2.1 e s' he
    exact ⟨e, he⟩

end CallSite
