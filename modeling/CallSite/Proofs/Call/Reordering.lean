import CallSite.Proofs.Call.Address
import CallSite.Proofs.List
import CallSite.Type.Initial

/-!
# Naming and ordering arguments

Named arguments may stand in any order, and the last positional argument may as well be given by
name (`CallSite.fitParameters_rearranged`). Neither changes which argument goes to which parameter,
and types are matched in the order of the parameters, so what is weighed and inferred on the way is
the same. Only a source tells how its argument was given.
-/

namespace CallSite

variable {names : NameComparison} {parameters : List Parameter} {arguments : Arguments}

/-! ### Another order -/

theorem namesFit_perm {positional : Nat} {taken : List Nat} {given given' : List String}
    (hperm : given'.Perm given) :
    namesFit names parameters positional taken given' =
      namesFit names parameters positional taken given := by
  rw [Bool.eq_iff_iff, namesFit_iff, namesFit_iff, (hperm.map _).nodup_iff]
  simp only [hperm.mem_iff]

/-- A name finds the same argument in any order, where the names of the arguments differ. -/
theorem findNamed_perm (hdiffer : (arguments.named.map Prod.fst).Pairwise fun a b =>
    names.equal a b = false) {named : List (String × Argument)}
    (hperm : named.Perm arguments.named) (name : String) :
    ({ arguments with named } : Arguments).findNamed names name =
      arguments.findNamed names name := by
  refine congrArg (Option.map Prod.snd) (find?_eq_of_perm hperm.symm ?_).symm
  refine (List.pairwise_map.mp hdiffer).imp fun {a b} hne hboth => ?_
  have hsame := NameComparison.equal_iff.mpr
    ((NameComparison.equal_iff.mp hboth.1).trans (NameComparison.equal_iff.mp hboth.2).symm)
  rw [hsame] at hne
  cases hne

/-- **Named arguments may stand in any order.** -/
theorem fitParameters_perm (s : Store) (depth : Nat) (names : NameComparison)
    (parameters : List Parameter) (arguments : Arguments) (inferred : Inferred)
    {named : List (String × Argument)} (hperm : named.Perm arguments.named) :
    fitParameters s depth names parameters { arguments with named } inferred =
      fitParameters s depth names parameters arguments inferred := by
  unfold fitParameters
  rw [namesFit_perm (hperm.map Prod.fst)]
  split
  · rfl
  split
  case isFalse => rfl
  case isTrue hnames =>
    have hsupplied : supplied? names { arguments with named } = supplied? names arguments := by
      funext k p
      unfold supplied?
      simp only [findNamed_perm (pairwise_of_namesFit hnames) hperm]
    unfold fitParameter
    rw [hsupplied]

/-! ### The last positional argument -/

/-- **The last positional argument fills a parameter that has a name of its own**, and is given by
that name instead. -/
structure Arguments.Renames (arguments renamed : Arguments) (names : NameComparison)
    (parameters : List Parameter) (name : String) : Prop where
  /-- It is the first of the named arguments. -/
  exists_eq : ∃ a, arguments.positional = renamed.positional ++ [a] ∧
    renamed.named = (name, a) :: arguments.named
  /-- The parameter that it fills has the name. -/
  exists_parameter : ∃ p, parameters[renamed.positional.length]? = some p ∧ p.givenName = some name
  /-- No other parameter has it. -/
  unique : ∀ k p, parameters[k]? = some p → p.isNamed names name →
    k = renamed.positional.length

namespace Arguments.Renames

variable {renamed : Arguments} {name : String}
  (h : arguments.Renames renamed names parameters name)

include h

theorem length_positional : arguments.positional.length = renamed.positional.length + 1 := by
  obtain ⟨a, hpositional, -⟩ := h.exists_eq
  rw [hpositional, List.length_append, List.length_singleton]

theorem findIdx?_eq :
    (parameters.findIdx? fun p => p.isNamed names name) = some renamed.positional.length := by
  obtain ⟨p, hp, hname⟩ := h.exists_parameter
  obtain ⟨hlength, rfl⟩ := List.getElem?_eq_some_iff.mp hp
  refine List.findIdx?_eq_some_iff_getElem.mpr ⟨hlength, ?_, fun k hk hnamed => ?_⟩
  · rw [Parameter.isNamed, (Option.filter_eq_some_iff.mp hname).1, Option.any_some]
    exact NameComparison.equal_iff.mpr rfl
  · exact absurd (h.unique k _ (List.getElem?_eq_getElem _) hnamed) (Nat.ne_of_lt hk)

/-- The named arguments fit as before: where the last argument was, there is the one that was
renamed. -/
theorem namesFit_eq :
    namesFit names parameters renamed.positional.length [] (renamed.named.map Prod.fst) =
      namesFit names parameters arguments.positional.length [] (arguments.named.map Prod.fst) := by
  obtain ⟨a, -, hnamed⟩ := h.exists_eq
  rw [Bool.eq_iff_iff, namesFit_iff, namesFit_iff, hnamed, h.length_positional, List.map_cons,
    List.forall_mem_cons, List.map_cons, List.nodup_cons, h.findIdx?_eq]
  -- On one side the index is taken by a name, on the other by the number of positional arguments.
  constructor
  · rintro ⟨⟨-, hrest⟩, hown, hnodup⟩
    refine ⟨fun other hmem => ?_, hnodup⟩
    obtain ⟨index, hindex, hle, hnot⟩ := hrest other hmem
    refine ⟨index, hindex, Nat.lt_of_le_of_ne hle ?_, hnot⟩
    rintro rfl
    exact hown (List.mem_map.mpr ⟨other, hmem, hindex⟩)
  · rintro ⟨hrest, hnodup⟩
    refine ⟨⟨⟨_, rfl, Nat.le_refl _, List.not_mem_nil⟩, fun other hmem => ?_⟩, fun hmem => ?_,
      hnodup⟩
    · obtain ⟨index, hindex, hle, hnot⟩ := hrest other hmem
      exact ⟨index, hindex, Nat.le_of_succ_le hle, hnot⟩
    · obtain ⟨other, hmem, hother⟩ := List.mem_map.mp hmem
      obtain ⟨index, hindex, hle, -⟩ := hrest other hmem
      obtain rfl := Option.some.inj (hindex.symm.trans hother)
      exact Nat.lt_irrefl _ hle

/-- Its parameter was supplied by position and is supplied by name. -/
theorem supplied?_self {p : Parameter} (hp : parameters[renamed.positional.length]? = some p) :
    ∃ a, supplied? names arguments renamed.positional.length p =
        some (a, .positional renamed.positional.length) ∧
      supplied? names renamed renamed.positional.length p = some (a, .named name) := by
  obtain ⟨a, hpositional, hnamed⟩ := h.exists_eq
  obtain ⟨p', hp', hname⟩ := h.exists_parameter
  obtain rfl := Option.some.inj (hp'.symm.trans hp)
  refine ⟨a, ?_, ?_⟩
  · rw [supplied?, hpositional, List.getElem?_concat_length]
  · have hfirst : ((name, a) :: arguments.named).find? (fun entry => names.equal entry.1 name) =
        some (name, a) := List.find?_cons_of_pos (NameComparison.equal_iff.mpr rfl)
    rw [supplied?, List.getElem?_eq_none (Nat.le_refl _), hname, Option.bind_some, findNamed,
      hnamed, hfirst]
    rfl

/-- The others are supplied as before. -/
theorem supplied?_of_ne {k : Nat} {p : Parameter} (hp : parameters[k]? = some p)
    (hk : k ≠ renamed.positional.length) :
    supplied? names renamed k p = supplied? names arguments k p := by
  obtain ⟨a, hpositional, hnamed⟩ := h.exists_eq
  have hsame : arguments.positional[k]? = renamed.positional[k]? := by
    rw [hpositional]
    rcases Nat.lt_or_gt_of_ne hk with hlt | hgt
    · exact List.getElem?_append_left hlt
    · rw [List.getElem?_eq_none (Nat.le_of_lt hgt), List.getElem?_eq_none]
      rw [List.length_append, List.length_singleton]
      exact hgt
  rw [supplied?, supplied?, hsame]
  cases renamed.positional[k]? with
  | some _ => rfl
  | none =>
    dsimp only
    cases hname : p.givenName with
    | none => rfl
    | some own =>
      have hdiffer : names.equal name own = false := by
        rw [← Bool.not_eq_true]
        intro hequal
        refine hk (h.unique k p hp ?_)
        rw [Parameter.isNamed, (Option.filter_eq_some_iff.mp hname).1, Option.any_some,
          NameComparison.equal_comm]
        exact hequal
      rw [Option.bind_some, Option.bind_some, findNamed, hnamed, List.find?_cons_of_neg
        (by rw [hdiffer]; exact Bool.false_ne_true), ← findNamed]

theorem given?_eq {entry : Parameter × Nat} (hentry : entry ∈ parameters.zipIdx) :
    renamed.given? names entry = arguments.given? names entry := by
  have hp := List.mem_zipIdx_iff_getElem?.mp hentry
  unfold given?
  by_cases hk : entry.2 = renamed.positional.length
  case pos =>
    rw [hk] at hp ⊢
    obtain ⟨a, hbefore, hafter⟩ := h.supplied?_self hp
    rw [hbefore, hafter]
    rfl
  case neg => rw [h.supplied?_of_ne hp hk]

/-- **The same is weighed and inferred**, for the same arguments go to the same parameters. -/
theorem foldlM_weighParameter_eq (s : Store) (depth : Nat) (state : Weight × Inferred) :
    parameters.zipIdx.foldlM (weighParameter s depth (renamed.given? names)) state =
      parameters.zipIdx.foldlM (weighParameter s depth (arguments.given? names)) state := by
  have hstep : ∀ entry ∈ parameters.zipIdx, ∀ state,
      weighParameter s depth (renamed.given? names) state entry =
        weighParameter s depth (arguments.given? names) state entry := fun entry hentry state => by
    rw [weighParameter, weighParameter, h.given?_eq hentry]
  -- The steps agree on the parameters of the list only, so the two folds are compared step by step.
  refine Option.ext fun state' => ?_
  rw [Stepwise.foldlM_eq_some_iff, Stepwise.foldlM_eq_some_iff]
  exact ⟨fun hsteps => hsteps.mono fun entry hentry x y hxy => by rwa [← hstep entry hentry],
    fun hsteps => hsteps.mono fun entry hentry x y hxy => by rwa [hstep entry hentry]⟩

/-- The source of its parameter says how it is given. -/
theorem map_source?_eq : parameters.zipIdx.map (renamed.source? names) =
    (parameters.zipIdx.map (arguments.source? names)).set renamed.positional.length
      (some (.named name)) := by
  refine List.ext_getElem? fun k => ?_
  rw [List.getElem?_map, List.getElem?_set, List.length_map, List.length_zipIdx, List.getElem?_map,
    List.getElem?_zipIdx]
  cases hp : parameters[k]? with
  | none =>
    split
    case isTrue hk =>
      rw [if_neg (by rw [hk]; exact Nat.not_lt.mpr (List.getElem?_eq_none_iff.mp hp))]
      rfl
    case isFalse => rfl
  | some p =>
    rw [Option.map_some, Option.map_some, Option.map_some, Nat.zero_add]
    split
    case isTrue hk =>
      subst hk
      obtain ⟨a, -, hafter⟩ := h.supplied?_self hp
      rw [if_pos (List.getElem?_eq_some_iff.mp hp).1, source?, hafter]
    case isFalse hk =>
      rw [source?, source?, h.supplied?_of_ne hp (Ne.symm hk)]

/-- **A call addresses the parameters as well by the name of its last argument**, and the source of
the parameter of that name is the only one that changes. -/
theorem addresses_iff {sources : List Source} : renamed.Addresses names parameters sources ↔
    ∃ before, arguments.Addresses names parameters before ∧
      before.set renamed.positional.length (.named name) = sources := by
  obtain ⟨p, hp, -⟩ := h.exists_parameter
  obtain ⟨a, hbefore, hafter⟩ := h.supplied?_self hp
  constructor
  · intro hrenamed
    have hsource : sources[renamed.positional.length]? = some (.named name) := by
      rw [hrenamed.getElem? hp, source?, hafter]
    have hentry : (parameters.zipIdx.map (arguments.source? names))[renamed.positional.length]? =
        some (some (.positional renamed.positional.length)) := by
      rw [List.getElem?_map, List.getElem?_zipIdx, hp, Option.map_some, Option.map_some,
        Nat.zero_add, source?, hbefore]
    -- To get the sources of the other call, the one that tells how the argument is given is set
    -- back.
    refine ⟨sources.set renamed.positional.length (.positional renamed.positional.length),
      ⟨?_, ?_, ?_⟩, ?_⟩
    · rw [h.length_positional]
      exact (List.getElem?_eq_some_iff.mp hp).1
    · rw [← h.namesFit_eq]
      exact hrenamed.namesFit
    · rw [List.map_set, ← hrenamed.sources, h.map_source?_eq, List.set_set]
      exact (set_eq_self hentry).symm
    · rw [List.set_set]
      exact set_eq_self hsource
  · rintro ⟨before, haddresses, rfl⟩
    refine ⟨?_, ?_, ?_⟩
    · exact Nat.le_of_lt (List.getElem?_eq_some_iff.mp hp).1
    · rw [h.namesFit_eq]
      exact haddresses.namesFit
    · rw [List.map_set, ← haddresses.sources, h.map_source?_eq]

/-- **The last positional argument may be given by name.** -/
theorem fitParameters_eq (s : Store) (depth : Nat) (inferred : Inferred) :
    fitParameters s depth names parameters renamed inferred =
      (fitParameters s depth names parameters arguments inferred).map fun (fit, inferred) =>
        ({ fit with sources := fit.sources.set renamed.positional.length (.named name) },
          inferred) := by
  refine Option.ext fun ⟨⟨w, sources⟩, inferred'⟩ => ?_
  rw [fitParameters_eq_some_iff, h.addresses_iff, h.foldlM_weighParameter_eq,
    Option.map_eq_some_iff]
  constructor
  · rintro ⟨⟨before, haddresses, hset⟩, hweigh⟩
    refine ⟨(⟨w, before⟩, inferred'), fitParameters_eq_some_iff.mpr ⟨haddresses, hweigh⟩, ?_⟩
    dsimp only at hset ⊢
    rw [hset]
  · rintro ⟨⟨fit, inferred⟩, hfit, heq⟩
    obtain ⟨haddresses, hweigh⟩ := fitParameters_eq_some_iff.mp hfit
    cases heq
    exact ⟨⟨fit.sources, haddresses, rfl⟩, hweigh⟩

end Arguments.Renames

/-- **Naming and ordering arguments changes no match.** Named arguments may stand in any order, and
the last positional argument may be given, in any place, by the name of the parameter that it fills,
if that name is not empty and no other parameter has it. Whether the call fits, what it weighs and
what it infers is the same, and so are the sources, save the one that tells how that argument was
given. -/
theorem fitParameters_rearranged (s : Store) (depth : Nat) (names : NameComparison)
    (parameters : List Parameter) (arguments : Arguments) (inferred : Inferred) :
    (∀ named, named.Perm arguments.named →
      fitParameters s depth names parameters { arguments with named } inferred =
        fitParameters s depth names parameters arguments inferred) ∧
    ∀ positional a p name named, arguments.positional = positional ++ [a] →
      parameters[positional.length]? = some p → p.givenName = some name →
      (∀ k q, parameters[k]? = some q → q.isNamed names name → k = positional.length) →
      named.Perm ((name, a) :: arguments.named) →
      fitParameters s depth names parameters { arguments with positional, named } inferred =
        (fitParameters s depth names parameters arguments inferred).map fun (fit, inferred) =>
          ({ fit with sources := fit.sources.set positional.length (.named name) }, inferred) := by
  refine ⟨fun named hperm =>
    fitParameters_perm s depth names parameters arguments inferred hperm, ?_⟩
  intro positional a p name named hpositional hp hname hunique hperm
  have hrenames : arguments.Renames
      { arguments with positional, named := (name, a) :: arguments.named } names parameters name :=
    { exists_eq := ⟨a, hpositional, rfl⟩
      exists_parameter := ⟨p, hp, hname⟩
      unique := hunique }
  rw [← hrenames.fitParameters_eq]
  exact fitParameters_perm s depth names parameters
    { arguments with positional, named := (name, a) :: arguments.named } inferred hperm

/-- Of two arguments, one by position and one by name, the first may be named as well, behind the
other. -/
theorem fitParameters_rearranged_two :
    fitParameters Store.initial 30 .ignoreCase
        [⟨0, "first", Core.int32, none, false⟩, ⟨1, "second", Core.string, none, false⟩]
        { named := [("SECOND", .ofType Core.string), ("first", .ofType Core.int32)] } {} =
      some (⟨{ specified := 2, total := 2, identical := 2 },
        [.named "first", .named "second"]⟩, {}) := by
  have hfit : fitParameters Store.initial 30 .ignoreCase
      [⟨0, "first", Core.int32, none, false⟩, ⟨1, "second", Core.string, none, false⟩]
      { positional := [.ofType Core.int32], named := [("SECOND", .ofType Core.string)] } {} =
      some (⟨{ specified := 2, total := 2, identical := 2 },
        [.positional 0, .named "second"]⟩, {}) := by
    decide +kernel
  have hunique : ∀ k q, [(⟨0, "first", Core.int32, none, false⟩ : Parameter),
      ⟨1, "second", Core.string, none, false⟩][k]? = some q →
        q.isNamed .ignoreCase "first" → k = 0 := by
    intro k q hq hnamed
    match k with
    | 0 => rfl
    | 1 =>
      obtain rfl := Option.some.inj hq
      revert hnamed
      decide +kernel
  have hrearranged := (fitParameters_rearranged Store.initial 30 .ignoreCase
    [⟨0, "first", Core.int32, none, false⟩, ⟨1, "second", Core.string, none, false⟩]
    { positional := [.ofType Core.int32], named := [("SECOND", .ofType Core.string)] } {}).2 []
    (.ofType Core.int32) ⟨0, "first", Core.int32, none, false⟩ "first"
    [("SECOND", .ofType Core.string), ("first", .ofType Core.int32)] rfl rfl rfl hunique
    (.swap _ _ _)
  rw [hfit] at hrearranged
  exact hrearranged

end CallSite
