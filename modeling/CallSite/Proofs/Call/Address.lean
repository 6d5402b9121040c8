import CallSite.Call.Fit
import CallSite.Proofs.Match.Rule
import Mathlib.Data.List.Forall2

/-!
# Which argument goes where

Where a parameter gets its value from is a matter of its place, its name and its default. Whether it
takes what it gets is a matter of its type. A call fits a list of parameters when both go well
(`CallSite.fitParameters_eq_some_iff`), and the two are independent of each other: the sources are
not looked at when types are matched, and the types are not looked at when a source is found.

* `NameComparison.equal_iff` – names are the same if they are folded to the same text.
* `namesFit_iff` – each named argument has a parameter of its own, not filled by position.
* `Arguments.Addresses` – every parameter gets a value, and every argument has a parameter.
* `Arguments.Addresses.of_alike` – the types of the parameters do not matter for the sources.
* `weighParameter` – what a parameter adds to the weight and to what is inferred.
-/

namespace CallSite

/-! ### Names -/

namespace NameComparison

/-- What a comparison looks at in a name. -/
def fold : NameComparison → String → String
  | .caseSensitive, name => name
  | .ignoreCase, name => Text.toSmall name

/-- **Names are the same** if the comparison looks at the same text in them. -/
theorem equal_iff {names : NameComparison} {a b : String} :
    names.equal a b ↔ names.fold a = names.fold b := by
  cases names <;> exact beq_iff_eq

theorem equal_comm (names : NameComparison) (a b : String) : names.equal a b = names.equal b a := by
  rw [Bool.eq_iff_iff, equal_iff, equal_iff, eq_comm]

/-- Two names that are the same are the same as the same names. -/
theorem equal_right {names : NameComparison} {a b : String} (h : names.equal a b) (c : String) :
    names.equal c a = names.equal c b := by
  rw [Bool.eq_iff_iff, equal_iff, equal_iff, equal_iff.mp h]

end NameComparison

/-- The same name names the same parameters. -/
theorem Parameter.isNamed_congr {names : NameComparison} {a b : String} (h : names.equal a b)
    (p : Parameter) : p.isNamed names a = p.isNamed names b := by
  unfold Parameter.isNamed
  simp only [NameComparison.equal_right h]

/-- **Named arguments fit** if each of them has a parameter of its own that is not taken. -/
theorem namesFit_iff {names : NameComparison} {parameters : List Parameter} {positional : Nat}
    {taken : List Nat} {given : List String} :
    namesFit names parameters positional taken given ↔
      (∀ name ∈ given, ∃ index, (parameters.findIdx? fun p => p.isNamed names name) = some index ∧
        positional ≤ index ∧ index ∉ taken) ∧
      (given.map fun name => parameters.findIdx? fun p => p.isNamed names name).Nodup := by
  induction given generalizing taken with
  | nil => exact iff_of_true rfl ⟨fun _ h => absurd h List.not_mem_nil, List.nodup_nil⟩
  | cons name given ih =>
    rw [namesFit, List.forall_mem_cons, List.map_cons, List.nodup_cons]
    cases hindex : parameters.findIdx? fun p => p.isNamed names name with
    | none => exact iff_of_false Bool.false_ne_true (by rintro ⟨⟨⟨_, h, -⟩, -⟩, -⟩; cases h)
    | some index =>
      dsimp only
      split
      case isTrue htaken =>
        refine iff_of_false Bool.false_ne_true ?_
        rintro ⟨⟨⟨_, ⟨⟩, hle, hnot⟩, -⟩, -⟩
        rw [Bool.or_eq_true, decide_eq_true_iff, List.contains_iff_mem] at htaken
        exact htaken.elim (Nat.not_lt.mpr hle) hnot
      case isFalse htaken =>
        rw [Bool.or_eq_true, decide_eq_true_iff, List.contains_iff_mem, not_or,
          Nat.not_lt] at htaken
        rw [ih]
        -- That the others do not take this index is said by `taken` on one side and by the list of
        -- indices on the other.
        constructor
        · rintro ⟨hrest, hnodup⟩
          refine ⟨⟨⟨index, rfl, htaken⟩, fun other hmem => ?_⟩, fun hmem => ?_, hnodup⟩
          · obtain ⟨k, hk, hle, hnot⟩ := hrest other hmem
            exact ⟨k, hk, hle, fun h => hnot (List.mem_cons_of_mem _ h)⟩
          · obtain ⟨other, hmem, hother⟩ := List.mem_map.mp hmem
            obtain ⟨k, hk, -, hnot⟩ := hrest other hmem
            obtain rfl := Option.some.inj (hk.symm.trans hother)
            exact hnot List.mem_cons_self
        · rintro ⟨⟨-, hrest⟩, hown, hnodup⟩
          refine ⟨fun other hmem => ?_, hnodup⟩
          obtain ⟨k, hk, hle, hnot⟩ := hrest other hmem
          refine ⟨k, hk, hle, fun h => (List.mem_cons.mp h).elim ?_ hnot⟩
          rintro rfl
          exact hown (List.mem_map.mpr ⟨other, hmem, hk⟩)

/-- Named arguments that fit have names that differ. -/
theorem pairwise_of_namesFit {names : NameComparison} {parameters : List Parameter}
    {positional : Nat} {taken : List Nat} {given : List String}
    (h : namesFit names parameters positional taken given) :
    given.Pairwise fun a b => names.equal a b = false := by
  refine (List.pairwise_map.mp (namesFit_iff.mp h).2).imp fun {a b} hne => ?_
  rw [← Bool.not_eq_true]
  intro hequal
  refine hne ?_
  rw [funext (Parameter.isNamed_congr hequal)]

/-! ### Sources -/

/-- **Where an argument stands** in a call. -/
inductive Place
  /-- Among the positional arguments, at an index. -/
  | positional (index : Nat)
  /-- Among the named arguments, at an index. -/
  | named (index : Nat)
deriving DecidableEq, Repr

namespace Arguments

variable (arguments : Arguments) (names : NameComparison)

/-- The places of all arguments. -/
def places : List Place :=
  (List.range arguments.positional.length).map .positional ++
    (List.range arguments.named.length).map .named

/-- **The place that a source stands for**. A name stands for the first argument that it finds. -/
def place? : Source → Option Place
  | .positional index => some (.positional index)
  | .named name => (arguments.named.findIdx? fun entry => names.equal entry.1 name).map .named
  | .default => none

/-- **The argument that goes to a parameter.** -/
def given? (entry : Parameter × Nat) : Option Argument :=
  (supplied? names arguments entry.2 entry.1).map Prod.fst

/-- **Where a parameter gets its value from**: from an argument, or else from its default. -/
def source? (entry : Parameter × Nat) : Option Source :=
  match supplied? names arguments entry.2 entry.1 with
  | some (_, source) => some source
  | none => if entry.1.isOptional then some .default else none

/-- **A call addresses a list of parameters**: each of them gets a value from somewhere, and no
argument is left over. -/
structure Addresses (parameters : List Parameter) (sources : List Source) : Prop where
  /-- There is a parameter for each positional argument. -/
  length_le : arguments.positional.length ≤ parameters.length
  /-- There is another one for each named argument. -/
  namesFit : namesFit names parameters arguments.positional.length []
    (arguments.named.map Prod.fst)
  /-- Each parameter gets a value. -/
  sources : parameters.zipIdx.map (arguments.source? names) = sources.map some

end Arguments

namespace Arguments.Addresses

variable {arguments : Arguments} {names : NameComparison} {parameters : List Parameter}
  {sources : List Source}

theorem length_eq (h : arguments.Addresses names parameters sources) :
    sources.length = parameters.length := by
  have hlength := congrArg List.length h.sources
  rwa [List.length_map, List.length_map, List.length_zipIdx, eq_comm] at hlength

theorem getElem? (h : arguments.Addresses names parameters sources) {k : Nat} {p : Parameter}
    (hp : parameters[k]? = some p) : sources[k]? = arguments.source? names (p, k) := by
  have hk : (parameters.zipIdx.map (arguments.source? names))[k]? = (sources.map some)[k]? := by
    rw [h.sources]
  rw [List.getElem?_map, List.getElem?_map, List.getElem?_zipIdx, hp, Option.map_some,
    Option.map_some, Nat.zero_add] at hk
  obtain ⟨source, hsource, heq⟩ := Option.map_eq_some_iff.mp hk.symm
  rw [hsource, heq]

end Arguments.Addresses

/-! ### Types do not matter -/

/-- **Two parameters differ in their types only.** -/
def Parameter.Alike (p q : Parameter) : Prop :=
  q = { p with type := q.type }

namespace Parameter.Alike

variable {p q : Parameter} (h : p.Alike q) (names : NameComparison)

include h

theorem givenName_eq : q.givenName = p.givenName := by
  rw [h]
  rfl

theorem isNamed_eq : q.isNamed names = p.isNamed names := by
  rw [h]
  rfl

theorem isOptional_eq : q.isOptional = p.isOptional := by
  rw [h]
  rfl

theorem isOut_eq : q.isOut = p.isOut := by
  rw [h]

theorem supplied?_eq (arguments : Arguments) (k : Nat) :
    supplied? names arguments k q = supplied? names arguments k p := by
  rw [supplied?, supplied?, h.givenName_eq]

theorem source?_eq (arguments : Arguments) (k : Nat) :
    arguments.source? names (q, k) = arguments.source? names (p, k) := by
  rw [Arguments.source?, Arguments.source?]
  dsimp only
  rw [h.supplied?_eq, h.isOptional_eq]

end Parameter.Alike

/-- Parameters that differ in their types only are found by the same names. -/
theorem findIdx?_isNamed_eq {names : NameComparison} {ps qs : List Parameter}
    (h : List.Forall₂ Parameter.Alike ps qs) (name : String) :
    (qs.findIdx? fun q => q.isNamed names name) = ps.findIdx? fun p => p.isNamed names name := by
  induction h with
  | nil => rfl
  | cons hpq _ ih => rw [List.findIdx?_cons, List.findIdx?_cons, hpq.isNamed_eq, ih]

theorem namesFit_eq {names : NameComparison} {ps qs : List Parameter}
    (h : List.Forall₂ Parameter.Alike ps qs) (positional : Nat) (taken : List Nat)
    (given : List String) :
    namesFit names qs positional taken given = namesFit names ps positional taken given := by
  induction given generalizing taken with
  | nil => rfl
  | cons name given ih =>
    rw [namesFit, namesFit, findIdx?_isNamed_eq h]
    simp only [ih]

theorem map_source?_eq {arguments : Arguments} {names : NameComparison} {ps qs : List Parameter}
    (h : List.Forall₂ Parameter.Alike ps qs) (k : Nat) :
    (qs.zipIdx k).map (arguments.source? names) = (ps.zipIdx k).map (arguments.source? names) := by
  induction h generalizing k with
  | nil => rfl
  | cons hpq _ ih =>
    rw [List.zipIdx_cons, List.zipIdx_cons, List.map_cons, List.map_cons, hpq.source?_eq, ih]

/-- **Types do not matter** for what a call addresses. -/
theorem Arguments.Addresses.of_alike {arguments : Arguments} {names : NameComparison}
    {ps qs : List Parameter} {sources : List Source} (h : arguments.Addresses names ps sources)
    (hpq : List.Forall₂ Parameter.Alike ps qs) : arguments.Addresses names qs sources where
  length_le := hpq.length_eq ▸ h.length_le
  namesFit := by
    rw [namesFit_eq hpq]
    exact h.namesFit
  sources := (map_source?_eq hpq 0).trans h.sources

/-! ### Addressing and matching -/

section Fit

variable {s : Store} {depth : Nat} {names : NameComparison} {arguments : Arguments}

/-- What a parameter adds to the weight and to what is inferred, given the argument that goes to
it. -/
def weighParameter (s : Store) (depth : Nat) (given? : Parameter × Nat → Option Argument)
    (state : Weight × Inferred) (entry : Parameter × Nat) : Option (Weight × Inferred) :=
  let w := { state.1 with total := state.1.total + 1 }
  match given? entry with
  | some a => (fitArgument s depth entry.1 a w state.2).map fun (w, inferred) =>
      ({ w with specified := w.specified + 1 }, inferred)
  | none =>
    if entry.1.isOptional then some ({ w with required := w.required + 1 }, state.2) else none

/-- A parameter is fitted where it has a source, which goes behind the others, and where it takes
what it gets. -/
theorem fitParameter_eq (fit : Fit × Inferred) (entry : Parameter × Nat) :
    fitParameter s depth names arguments fit entry =
      (arguments.source? names entry).bind fun source =>
        (weighParameter s depth (arguments.given? names) (fit.1.weight, fit.2) entry).map
          fun (w, inferred) => (⟨w, fit.1.sources ++ [source]⟩, inferred) := by
  obtain ⟨p, k⟩ := entry
  unfold fitParameter weighParameter Arguments.source? Arguments.given?
  dsimp only
  cases supplied? names arguments k p with
  | none =>
    dsimp only [Option.map_none]
    split <;> rfl
  | some given =>
    obtain ⟨a, source⟩ := given
    dsimp only [Option.map_some, Option.bind_some]
    rw [Option.map_map]
    rfl

theorem fitParameter_eq_some_iff {entry : Parameter × Nat} {fit fit' : Fit × Inferred} :
    fitParameter s depth names arguments fit entry = some fit' ↔
      ∃ source, arguments.source? names entry = some source ∧
        fit'.1.sources = fit.1.sources ++ [source] ∧
        weighParameter s depth (arguments.given? names) (fit.1.weight, fit.2) entry =
          some (fit'.1.weight, fit'.2) := by
  rw [fitParameter_eq, Option.bind_eq_some_iff]
  refine exists_congr fun source => and_congr_right fun _ => ?_
  rw [Option.map_eq_some_iff]
  constructor
  · rintro ⟨state, hstate, rfl⟩
    exact ⟨rfl, hstate⟩
  · rintro ⟨hsources, hstate⟩
    exact ⟨_, hstate, by rw [← hsources]⟩

theorem foldlM_fitParameter_eq_some_iff {entries : List (Parameter × Nat)}
    {fit fit' : Fit × Inferred} :
    entries.foldlM (fitParameter s depth names arguments) fit = some fit' ↔
      ∃ sources, entries.map (arguments.source? names) = sources.map some ∧
        fit'.1.sources = fit.1.sources ++ sources ∧
        entries.foldlM (weighParameter s depth (arguments.given? names)) (fit.1.weight, fit.2) =
          some (fit'.1.weight, fit'.2) := by
  induction entries generalizing fit with
  | nil =>
    constructor
    · intro h
      obtain rfl : fit = fit' := Option.some.inj h
      exact ⟨[], rfl, (List.append_nil _).symm, rfl⟩
    · rintro ⟨added, hadded, hsources, hweigh⟩
      obtain rfl := List.map_eq_nil_iff.mp hadded.symm
      obtain ⟨hw, hinferred⟩ := Prod.mk.inj (Option.some.inj hweigh)
      rw [List.append_nil] at hsources
      refine congrArg some (Prod.ext ?_ hinferred)
      rw [Fit.mk.injEq]
      exact ⟨hw, hsources.symm⟩
  | cons entry entries ih =>
    simp only [List.foldlM_cons, Option.bind_eq_bind, Option.bind_eq_some_iff,
      fitParameter_eq_some_iff, ih]
    constructor
    · rintro ⟨⟨⟨w, -⟩, inferred⟩, ⟨source, hsource, rfl, hfirst⟩, rest, hrest, hbehind, hweigh⟩
      refine ⟨source :: rest, ?_, ?_, (w, inferred), hfirst, hweigh⟩
      · rw [List.map_cons, List.map_cons, hsource, hrest]
      · rw [hbehind, List.append_assoc, List.singleton_append]
    · rintro ⟨sources, hsources, hbehind, ⟨w, inferred⟩, hfirst, hweigh⟩
      obtain ⟨source, rest, rfl, hsource, hrest⟩ := List.map_eq_cons_iff.mp hsources.symm
      refine ⟨(⟨w, fit.1.sources ++ [source]⟩, inferred), ⟨source, hsource.symm, rfl, hfirst⟩, rest,
        hrest.symm, ?_, hweigh⟩
      rw [hbehind, List.append_assoc, List.singleton_append]

/-- **A call fits a list of parameters** if it addresses them and they take what they get. -/
theorem fitParameters_eq_some_iff {parameters : List Parameter} {inferred inferred' : Inferred}
    {fit : Fit} :
    fitParameters s depth names parameters arguments inferred = some (fit, inferred') ↔
      arguments.Addresses names parameters fit.sources ∧
      parameters.zipIdx.foldlM (weighParameter s depth (arguments.given? names)) ({}, inferred) =
        some (fit.weight, inferred') := by
  unfold fitParameters
  split
  case isTrue hlength =>
    exact iff_of_false (by rintro ⟨⟩) fun h => Nat.not_lt.mpr h.1.length_le hlength
  case isFalse hlength =>
    split
    case isFalse hnames =>
      exact iff_of_false (by rintro ⟨⟩) fun h => hnames h.1.namesFit
    case isTrue hnames =>
      rw [foldlM_fitParameter_eq_some_iff]
      constructor
      · rintro ⟨sources, hsources, heq, hweigh⟩
        obtain rfl : fit.sources = sources := heq
        exact ⟨⟨Nat.not_lt.mp hlength, hnames, hsources⟩, hweigh⟩
      · rintro ⟨h, hweigh⟩
        exact ⟨fit.sources, h.sources, rfl, hweigh⟩

end Fit

end CallSite
