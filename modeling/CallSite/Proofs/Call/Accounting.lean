import CallSite.Proofs.Call.Address
import CallSite.Type.Initial
import Mathlib.Data.List.Nodup

/-!
# Every argument is used once

A call that fits was checked twice. The check of the named arguments goes from each of them to the
first parameter of its name, and the fit goes from each parameter to the first argument of its name,
unless that name is empty. Whether the two agree is a matter of the parameters alone: every argument
is used once if and only if each named argument finds one parameter, and no more, among those whose
name is not empty (`CallSite.usesEachOnce_iff`).
-/

namespace CallSite

/-- **Every argument is used once**: each stands behind a single source, and as many parameters are
counted as supplied as there are arguments. -/
structure Fit.UsesEachOnce (fit : Fit) (names : NameComparison) (arguments : Arguments) : Prop where
  /-- A positional argument supplies one parameter. -/
  positional : ∀ index < arguments.positional.length, fit.sources.count (.positional index) = 1
  /-- A named argument supplies one parameter. -/
  named : ∀ index < arguments.named.length,
    fit.sources.countP (fun source => arguments.place? names source = some (.named index)) = 1
  /-- No other parameter counts as supplied. -/
  specified : fit.weight.specified = arguments.length

/-! ### Places -/

namespace Arguments

variable {arguments : Arguments} {names : NameComparison}

theorem mem_places {place : Place} : place ∈ arguments.places ↔
    (∃ index < arguments.positional.length, .positional index = place) ∨
      ∃ index < arguments.named.length, .named index = place := by
  simp only [places, List.mem_append, List.mem_map, List.mem_range]

theorem nodup_places : arguments.places.Nodup := by
  refine List.Nodup.append ?_ ?_ fun place hpositional hnamed => ?_
  · exact List.nodup_range.map fun _ _ => Place.positional.inj
  · exact List.nodup_range.map fun _ _ => Place.named.inj
  · obtain ⟨i, -, rfl⟩ := List.mem_map.mp hpositional
    obtain ⟨j, -, h⟩ := List.mem_map.mp hnamed
    cases h

theorem length_places : arguments.places.length = arguments.length := by
  rw [places, List.length_append, List.length_map, List.length_map, List.length_range,
    List.length_range, length]

/-- A positional source stands for one place only. -/
theorem place?_eq_positional_iff {source : Source} {index : Nat} :
    arguments.place? names source = some (.positional index) ↔ source = .positional index := by
  cases source <;> simp [place?]

/-- Of named arguments whose names differ, a name finds the one whose name is the same. -/
theorem findIdx?_named_iff (hdiffer : (arguments.named.map Prod.fst).Pairwise fun a b =>
    names.equal a b = false) {name : String} {index : Nat} :
    (arguments.named.findIdx? fun entry => names.equal entry.1 name) = some index ↔
      ∃ entry, arguments.named[index]? = some entry ∧ names.equal entry.1 name := by
  rw [List.findIdx?_eq_some_iff_getElem]
  constructor
  · rintro ⟨hindex, hequal, -⟩
    exact ⟨_, List.getElem?_eq_getElem hindex, hequal⟩
  · rintro ⟨entry, hentry, hequal⟩
    obtain ⟨hindex, rfl⟩ := List.getElem?_eq_some_iff.mp hentry
    refine ⟨hindex, hequal, fun other hother hsame => ?_⟩
    -- Two arguments that the name finds have the same name.
    have hboth := NameComparison.equal_iff.mpr
      ((NameComparison.equal_iff.mp hsame).trans (NameComparison.equal_iff.mp hequal).symm)
    have hne := List.pairwise_iff_getElem.mp (List.pairwise_map.mp hdiffer) other index
      (Nat.lt_trans hother hindex) hindex hother
    rw [hboth] at hne
    cases hne

/-- What finds an argument finds the index of one. -/
theorem isSome_findIdx?_named (name : String) :
    (arguments.named.findIdx? fun entry => names.equal entry.1 name).isSome =
      (arguments.findNamed names name).isSome := by
  rw [List.findIdx?_isSome, findNamed, Option.isSome_map, List.isSome_find?]

/-- **The place from which a parameter is supplied**: a positional one, or else that of the argument
that its name finds. -/
theorem bind_place?_source? (p : Parameter) (k : Nat) :
    (arguments.source? names (p, k)).bind (arguments.place? names) =
      if k < arguments.positional.length then some (.positional k)
      else p.givenName.bind fun name =>
        (arguments.named.findIdx? fun entry => names.equal entry.1 name).map .named := by
  unfold source? supplied?
  dsimp only
  by_cases hk : k < arguments.positional.length
  case pos =>
    rw [List.getElem?_eq_getElem hk, if_pos hk]
    rfl
  case neg =>
    rw [List.getElem?_eq_none (Nat.not_lt.mp hk), if_neg hk]
    cases p.givenName with
    | none =>
      dsimp only [Option.bind_none]
      split <;> rfl
    | some name =>
      dsimp only [Option.bind_some]
      cases hfound : arguments.findNamed names name with
      | some a => rfl
      | none =>
        have hindex : (arguments.named.findIdx? fun entry => names.equal entry.1 name) = none := by
          rw [← Option.isNone_iff_eq_none, ← Option.not_isSome, isSome_findIdx?_named, hfound]
          rfl
        rw [hindex]
        dsimp only [Option.map_none]
        split <;> rfl

/-- A parameter is supplied from a place if an argument goes to it. -/
theorem isSome_bind_place? (entry : Parameter × Nat) :
    ((arguments.source? names entry).bind (arguments.place? names)).isSome =
      (arguments.given? names entry).isSome := by
  obtain ⟨p, k⟩ := entry
  rw [bind_place?_source?, given?, supplied?, Option.isSome_map]
  by_cases hk : k < arguments.positional.length
  case pos =>
    rw [if_pos hk, List.getElem?_eq_getElem hk]
    rfl
  case neg =>
    rw [if_neg hk, List.getElem?_eq_none (Nat.not_lt.mp hk)]
    cases p.givenName with
    | none => rfl
    | some name =>
      dsimp only [Option.bind_some]
      rw [Option.isSome_map, Option.isSome_map, isSome_findIdx?_named]

end Arguments

/-! ### How many parameters a place supplies -/

namespace Arguments.Addresses

variable {arguments : Arguments} {names : NameComparison} {parameters : List Parameter}
  {sources : List Source} (h : arguments.Addresses names parameters sources)

include h

/-- The places behind the sources are those from which the parameters are supplied. -/
theorem filterMap_place? : sources.filterMap (arguments.place? names) =
    parameters.zipIdx.filterMap fun entry =>
      (arguments.source? names entry).bind (arguments.place? names) := by
  calc sources.filterMap (arguments.place? names)
    _ = (sources.map some).filterMap (·.bind (arguments.place? names)) := by
      rw [List.filterMap_map]
      rfl
    _ = _ := by
      rw [← h.sources, List.filterMap_map]
      rfl

theorem countP_place (place : Place) :
    sources.countP (fun source => arguments.place? names source = some place) =
      parameters.zipIdx.countP fun entry =>
        (arguments.source? names entry).bind (arguments.place? names) = some place := by
  have hcount := congrArg (List.count place) h.filterMap_place?
  rw [List.count_filterMap, List.count_filterMap] at hcount
  simpa only [beq_eq_decide] using hcount

/-- As many sources stand for an argument as there are parameters to which one goes. -/
theorem length_filterMap_place? : (sources.filterMap (arguments.place? names)).length =
    (parameters.zipIdx.filterMap (arguments.given? names)).length := by
  rw [h.filterMap_place?, List.length_filterMap_eq_countP, List.length_filterMap_eq_countP]
  simp only [isSome_bind_place?]

/-- A parameter that is filled by position has the name of no named argument. -/
theorem isNamed_eq_false {k : Nat} {p : Parameter} (hp : parameters[k]? = some p)
    (hk : k < arguments.positional.length) {entry : String × Argument}
    (hentry : entry ∈ arguments.named) : p.isNamed names entry.1 = false := by
  obtain ⟨index, hindex, hle, -⟩ :=
    (namesFit_iff.mp h.namesFit).1 entry.1 (List.mem_map_of_mem hentry)
  obtain ⟨_, -, hbefore⟩ := List.findIdx?_eq_some_iff_getElem.mp hindex
  obtain ⟨_, rfl⟩ := List.getElem?_eq_some_iff.mp hp
  rw [← Bool.not_eq_true]
  exact hbefore k (Nat.lt_of_lt_of_le hk hle)

/-- A positional argument supplies one parameter. -/
theorem countP_positional {index : Nat} (hindex : index < arguments.positional.length) :
    sources.countP
      (fun source => arguments.place? names source = some (.positional index)) = 1 := by
  -- Only the parameter at the same index is supplied from there: what is filled by name lies behind
  -- all positional arguments.
  have htest : ∀ entry ∈ parameters.zipIdx,
      decide ((arguments.source? names entry).bind (arguments.place? names) =
        some (.positional index)) = true ↔ (entry.2 == index) = true := fun entry _ => by
    rw [decide_eq_true_iff, beq_iff_eq, bind_place?_source?]
    split
    case isTrue => simp
    case isFalse hk =>
      refine iff_of_false ?_ fun heq => hk (heq ▸ hindex)
      simp [Option.bind_eq_some_iff]
  rw [h.countP_place, List.countP_congr htest]
  calc parameters.zipIdx.countP (fun entry => entry.2 == index)
    _ = (parameters.zipIdx.map Prod.snd).count index := by rw [List.count, List.countP_map]; rfl
    _ = 1 := by
      rw [List.zipIdx_map_snd]
      refine List.count_eq_one_of_mem List.nodup_range' (List.mem_range'_1.mpr ⟨Nat.zero_le _, ?_⟩)
      rw [Nat.zero_add]
      exact Nat.lt_of_lt_of_le hindex h.length_le

/-- **A named argument supplies every parameter that has its name**, unless that is empty. -/
theorem countP_named {index : Nat} {entry : String × Argument}
    (hentry : arguments.named[index]? = some entry) :
    sources.countP (fun source => arguments.place? names source = some (.named index)) =
      parameters.countP fun p => p.givenName.any (names.equal entry.1) := by
  have hdiffer := pairwise_of_namesFit h.namesFit
  have htest : ∀ slot ∈ parameters.zipIdx,
      decide ((arguments.source? names slot).bind (arguments.place? names) =
        some (.named index)) = true ↔ slot.1.givenName.any (names.equal entry.1) = true := by
    rintro ⟨p, k⟩ hslot
    rw [decide_eq_true_iff, bind_place?_source?, Option.any_eq_true]
    -- A parameter that is filled by position has the name of no named argument, or the call would
    -- not fit.
    split
    case isTrue hk =>
      refine iff_of_false (by simp) ?_
      rintro ⟨name, hname, hequal⟩
      have hnot := h.isNamed_eq_false (List.mem_zipIdx_iff_getElem?.mp hslot) hk
        (List.mem_of_getElem? hentry)
      rw [Parameter.isNamed, (Option.filter_eq_some_iff.mp hname).1, Option.any_some,
        NameComparison.equal_comm, hequal] at hnot
      cases hnot
    case isFalse =>
      simp only [Option.bind_eq_some_iff, Option.map_eq_some_iff, Place.named.injEq,
        exists_eq_right, findIdx?_named_iff hdiffer, hentry, Option.some.injEq, exists_eq_left']
  rw [h.countP_place, List.countP_congr htest]
  calc parameters.zipIdx.countP (fun slot => slot.1.givenName.any (names.equal entry.1))
    _ = (parameters.zipIdx.map Prod.fst).countP fun p => p.givenName.any (names.equal entry.1) := by
      rw [List.countP_map]
      rfl
    _ = _ := by rw [List.zipIdx_map_fst]

/-- What stands behind a source is an argument. -/
theorem mem_places_of_mem {source : Source} (hsource : source ∈ sources) {place : Place}
    (hplace : arguments.place? names source = some place) : place ∈ arguments.places := by
  have hmem : some source ∈ parameters.zipIdx.map (arguments.source? names) := by
    rw [h.sources]
    exact List.mem_map_of_mem hsource
  obtain ⟨⟨p, k⟩, -, hsource⟩ := List.mem_map.mp hmem
  have hbind : (arguments.source? names (p, k)).bind (arguments.place? names) = _ :=
    bind_place?_source? p k
  rw [hsource, Option.bind_some, hplace] at hbind
  rw [mem_places]
  split at hbind
  case isTrue hk => exact .inl ⟨k, hk, (Option.some.inj hbind).symm⟩
  case isFalse =>
    obtain ⟨name, -, hname⟩ := Option.bind_eq_some_iff.mp hbind.symm
    obtain ⟨index, hindex, rfl⟩ := Option.map_eq_some_iff.mp hname
    exact .inr ⟨index, (List.findIdx?_eq_some_iff_getElem.mp hindex).1, rfl⟩

/-- Behind every source there is an argument, unless it is a default. -/
theorem exists_place {source : Source} (hsource : source ∈ sources) (hdefault : source ≠ .default) :
    ∃ place, arguments.place? names source = some place := by
  have hmem : some source ∈ parameters.zipIdx.map (arguments.source? names) := by
    rw [h.sources]
    exact List.mem_map_of_mem hsource
  obtain ⟨entry, -, hsource⟩ := List.mem_map.mp hmem
  have hplace : ((arguments.source? names entry).bind (arguments.place? names)).isSome = _ :=
    isSome_bind_place? entry
  rw [hsource, Option.bind_some, given?, Option.isSome_map] at hplace
  unfold source? at hsource
  cases hsupplied : supplied? names arguments entry.2 entry.1 with
  | some given =>
    rw [hsupplied] at hplace
    exact Option.isSome_iff_exists.mp hplace
  | none =>
    rw [hsupplied] at hsource
    dsimp only at hsource
    split at hsource
    · exact absurd (Option.some.inj hsource).symm hdefault
    · cases hsource

/-- **Where every argument supplies one parameter**, the arguments are what stands behind the
sources. -/
theorem perm_places (hnamed : ∀ index < arguments.named.length,
    sources.countP (fun source => arguments.place? names source = some (.named index)) = 1) :
    (sources.filterMap (arguments.place? names)).Perm arguments.places := by
  -- Both sides have every place as often as it supplies a parameter, which is once or not at all.
  refine List.perm_iff_count.mpr fun place => ?_
  rw [List.count_filterMap]
  simp only [beq_eq_decide]
  by_cases hplace : place ∈ arguments.places
  · rw [List.count_eq_one_of_mem nodup_places hplace]
    obtain ⟨index, hindex, rfl⟩ | ⟨index, hindex, rfl⟩ := mem_places.mp hplace
    · exact h.countP_positional hindex
    · exact hnamed index hindex
  · rw [List.count_eq_zero_of_not_mem hplace, List.countP_eq_zero]
    intro source hsource htest
    exact hplace (h.mem_places_of_mem hsource (of_decide_eq_true htest))

end Arguments.Addresses

/-! ### What is counted -/

section Fit

variable {s : Store} {depth : Nat} {names : NameComparison} {arguments : Arguments}

/-- **An argument that goes to a parameter** leaves it to the fit to count that parameter, and may
be identical to it. -/
structure Weight.CountsArgument (w w' : Weight) : Prop where
  /-- As many parameters are counted. -/
  total_eq : w'.total = w.total
  /-- As many of them are left to their default. -/
  required_eq : w'.required = w.required
  /-- As many of them are supplied. -/
  specified_eq : w'.specified = w.specified
  /-- At most one more argument has exactly the type of its parameter. -/
  identical_le : w'.identical ≤ w.identical + 1

theorem Weight.countsArgument_countIdentical (t : TypeId) (p : Parameter) (w : Weight) :
    w.CountsArgument (countIdentical s t p w) := by
  unfold countIdentical
  split_ifs
  · exact ⟨rfl, rfl, rfl, Nat.le_refl _⟩
  · exact ⟨rfl, rfl, rfl, Nat.le_succ _⟩

theorem Weight.CountsArgument.countOpen {w w' : Weight} (h : w.CountsArgument w') (p : Parameter) :
    w.CountsArgument (countOpen s p w') := by
  unfold CallSite.countOpen
  dsimp only
  split_ifs <;> exact ⟨h.total_eq, h.required_eq, h.specified_eq, h.identical_le⟩

theorem countsArgument_of_fitArgument {p : Parameter} {a : Argument} {w w' : Weight}
    {inferred inferred' : Inferred}
    (h : fitArgument s depth p a w inferred = some (w', inferred')) : w.CountsArgument w' := by
  unfold fitArgument at h
  split at h
  case h_1 =>
    split at h
    case isTrue =>
      cases h
      have hsame : w.CountsArgument w := ⟨rfl, rfl, rfl, Nat.le_succ _⟩
      exact hsame.countOpen p
    case isFalse => cases h
  case h_2 t _ =>
    obtain ⟨i, -, h⟩ := Option.map_eq_some_iff.mp h
    cases h
    have hidentical := Weight.countsArgument_countIdentical (s := s) t p (w.absorb i.cost)
    have habsorbed : w.CountsArgument (countIdentical s t p (w.absorb i.cost)) :=
      ⟨hidentical.total_eq, hidentical.required_eq, hidentical.specified_eq,
        hidentical.identical_le⟩
    exact habsorbed.countOpen p

theorem specified_of_weighParameter {given? : Parameter × Nat → Option Argument}
    {entry : Parameter × Nat} {state state' : Weight × Inferred}
    (h : weighParameter s depth given? state entry = some state') :
    state'.1.specified = state.1.specified + (given? entry).toList.length := by
  unfold weighParameter at h
  dsimp only at h
  cases hgiven : given? entry with
  | none =>
    rw [hgiven] at h
    dsimp only at h
    split at h
    case isTrue =>
      cases h
      rfl
    case isFalse => cases h
  | some a =>
    rw [hgiven] at h
    obtain ⟨⟨w, inferred⟩, hfit, rfl⟩ := Option.map_eq_some_iff.mp h
    have hspecified := (countsArgument_of_fitArgument hfit).specified_eq
    exact congrArg (· + 1) hspecified

/-- **As many parameters count as supplied** as have an argument. -/
theorem specified_of_foldlM {given? : Parameter × Nat → Option Argument}
    {entries : List (Parameter × Nat)} {state state' : Weight × Inferred}
    (h : entries.foldlM (weighParameter s depth given?) state = some state') :
    state'.1.specified = state.1.specified + (entries.filterMap given?).length := by
  have hsteps := Stepwise.foldlM_eq_some_iff.mp h
  clear h
  -- The induction is on the parameters that are left; the state before them is arbitrary.
  induction hsteps with
  | nil => rfl
  | @cons entry entries state first state' hfirst _ ih =>
    rw [ih, specified_of_weighParameter hfirst, List.filterMap_cons]
    cases given? entry with
    | none => rfl
    | some a => exact (Nat.add_assoc _ _ _).trans (congrArg _ (Nat.add_comm _ _))

/-- **When every argument is used once.** In a call that fits, each positional argument supplies one
parameter, and each named argument every parameter of its name. So every argument is used once if
and only if one parameter, and no more, has the name of each named argument, and that name is not
empty. -/
theorem usesEachOnce_iff {parameters : List Parameter} {inferred inferred' : Inferred} {fit : Fit}
    (h : fitParameters s depth names parameters arguments inferred = some (fit, inferred')) :
    fit.UsesEachOnce names arguments ↔ ∀ entry ∈ arguments.named,
      parameters.countP (fun p => p.givenName.any (names.equal entry.1)) = 1 := by
  obtain ⟨haddresses, hweigh⟩ := fitParameters_eq_some_iff.mp h
  constructor
  · intro honce entry hentry
    obtain ⟨index, hindex, rfl⟩ := List.mem_iff_getElem.mp hentry
    rw [← haddresses.countP_named (List.getElem?_eq_getElem hindex)]
    exact honce.named index hindex
  · intro hone
    have hnamed : ∀ index < arguments.named.length, fit.sources.countP (fun source =>
        arguments.place? names source = some (.named index)) = 1 := fun index hindex => by
      rw [haddresses.countP_named (List.getElem?_eq_getElem hindex)]
      exact hone _ (List.getElem_mem hindex)
    refine ⟨fun index hindex => ?_, hnamed, ?_⟩
    · rw [← haddresses.countP_positional hindex, List.count]
      simp only [Arguments.place?_eq_positional_iff, beq_eq_decide]
    · calc fit.weight.specified
        _ = (parameters.zipIdx.filterMap (arguments.given? names)).length := by
          rw [specified_of_foldlM hweigh, Nat.zero_add]
        _ = (fit.sources.filterMap (arguments.place? names)).length :=
          haddresses.length_filterMap_place?.symm
        _ = arguments.places.length := (haddresses.perm_places hnamed).length_eq
        _ = arguments.length := Arguments.length_places

end Fit

/-- Two arguments that are given by name, in the order opposite to that of the parameters. -/
theorem usesEachOnce_iff_swapped : ∃ fit inferred',
    fitParameters Store.initial 30 .caseSensitive
      [⟨0, "first", Core.int32, none, false⟩, ⟨1, "second", Core.string, none, false⟩]
      { named := [("second", .ofType Core.string), ("first", .ofType Core.int32)] } {} =
        some (fit, inferred') ∧
    fit.UsesEachOnce .caseSensitive
      { named := [("second", .ofType Core.string), ("first", .ofType Core.int32)] } := by
  have hfits : (fitParameters Store.initial 30 .caseSensitive
      [⟨0, "first", Core.int32, none, false⟩, ⟨1, "second", Core.string, none, false⟩]
      { named := [("second", .ofType Core.string), ("first", .ofType Core.int32)] } {}).isSome := by
    decide +kernel
  obtain ⟨⟨fit, inferred'⟩, hfit⟩ := Option.isSome_iff_exists.mp hfits
  exact ⟨fit, inferred', hfit, (usesEachOnce_iff hfit).mpr (by decide)⟩

/-- **An argument may be lost, or used twice.** The empty name fits a parameter whose name is empty,
which then gets its default. A name that fits the first of two parameters of the same name goes to
both. -/
theorem argument_lost_or_repeated :
    (∃ fit inferred', fitParameters Store.initial 30 .caseSensitive
        [⟨0, some "", Core.int32, some .ofType, false⟩]
        { named := [("", .ofType Core.int32)] } {} = some (fit, inferred') ∧
      fit.sources = [.default] ∧ fit.weight.specified = 0 ∧
      ¬ fit.UsesEachOnce .caseSensitive { named := [("", .ofType Core.int32)] }) ∧
    ∃ fit inferred', fitParameters Store.initial 30 .ignoreCase
        [⟨0, "a", Core.int32, none, false⟩, ⟨1, "A", Core.int32, none, false⟩]
        { named := [("a", .ofType Core.int32)] } {} = some (fit, inferred') ∧
      fit.sources = [.named "a", .named "A"] ∧ fit.weight.specified = 2 ∧
      ¬ fit.UsesEachOnce .ignoreCase { named := [("a", .ofType Core.int32)] } := by
  constructor
  · refine ⟨⟨{ required := 1, total := 1 }, [.default]⟩, {}, by decide +kernel, rfl, rfl, ?_⟩
    intro honce
    exact absurd honce.specified (by decide)
  · refine ⟨⟨{ specified := 2, total := 2, identical := 2 }, [.named "a", .named "A"]⟩, {},
      by decide +kernel, rfl, rfl, ?_⟩
    intro honce
    exact absurd honce.specified (by decide)

end CallSite
