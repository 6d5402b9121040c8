import CallSite.Call.Fill
import CallSite.Proofs.Call.Accounting
import CallSite.Proofs.Resolve.Supply

/-!
# What filling a list of parameters accounts for

A call fills its parameters one after another on one shared state, and gives up at the first one
that it cannot fill. Two things are asked for: that nothing of a run that gives up is seen, and that
what a run that succeeds reports about sources and counters adds up. The second is not a matter of
any one parameter. It is kept by each of them (`Fit.Balanced`), so that it holds behind the last
one.

* `fillParameters_eq_some_iff` – a run succeeds with what fits the parameters.
* `Fit.Balanced` – the counters agree with the sources named so far.
* `Fit.Accounts` – what a fit says about its parameters, its arguments and the slots.
* `fillParameters_accounts` – a run is all or nothing, and accounts for every parameter.
-/

namespace CallSite

variable {s : Store} {depth : Nat} {names : NameComparison} {arguments : Arguments}

/-! ### The run and the fit -/

section Run

/-- A run over a list succeeds if it succeeds item by item. -/
theorem allM_eq_some_true_iff {σ β : Type} {f : β → StateT σ Option Bool} {items : List β}
    {state state' : σ} : (items.allM f) state = some (true, state') ↔
      Stepwise (fun b x y => f b x = some (true, y)) items state state' := by
  induction items generalizing state with
  | nil =>
    constructor
    · intro h
      cases h
      exact .nil
    · rintro ⟨⟩
      rfl
  | cons b items ih =>
    have happly : ((b :: items).allM f) state =
        (f b state).bind fun r => if r.1 then (items.allM f) r.2 else some (false, r.2) := by
      simp only [List.allM, bind, StateT.bind]
      rcases f b state with _ | ⟨_ | _, x⟩ <;> rfl
    rw [happly, Option.bind_eq_some_iff]
    constructor
    · rintro ⟨⟨_ | _, x⟩, hb, h⟩
      · cases h
      · exact .cons hb (ih.mp h)
    · rintro (_ | ⟨hb, h⟩)
      exact ⟨_, hb, ih.mpr h⟩

open Filling in
/-- **A parameter is filled with an argument** where the argument fits it. -/
theorem fillArgument_eq_some_true_iff {p : Parameter} {a : Argument}
    {state state' : Fit × Inferred} :
    fillArgument s depth p a state = some (true, state') ↔
      ∃ w inferred, fitArgument s depth p a state.1.weight state.2 = some (w, inferred) ∧
        ({ state.1 with weight := w }, inferred) = state' := by
  unfold fillArgument fitArgument
  cases a.type with
  | none =>
    dsimp only
    split
    · simp [-bind_pure_comp, bind_apply, pure_apply, weigh_apply]
    · simp [pure_apply]
  | some t =>
    have hslots : fillSlots s depth p t state =
        (s.search depth t (argumentVariance s p) p.type state.2.start).map fun r =>
          ((r.1, r.2.cost), (state.1, r.2.inferred)) := rfl
    simp only [bind_apply, hslots, Store.matches]
    rcases s.search depth t (argumentVariance s p) p.type state.2.start with _ | ⟨_ | _, i⟩
    · simp
    · simp [pure_apply]
    · simp [-bind_pure_comp, bind_apply, pure_apply, weigh_apply]

open Filling in
/-- **One parameter is filled** where it is fitted. -/
theorem fillParameter_eq_some_true_iff {entry : Parameter × Nat} {state state' : Fit × Inferred} :
    fillParameter s depth names arguments entry state = some (true, state') ↔
      fitParameter s depth names arguments state entry = some state' := by
  unfold fillParameter fitParameter
  simp only [bind_apply, weigh_apply, Option.bind_some]
  cases supplied? names arguments entry.2 entry.1 with
  | none =>
    dsimp only
    split
    · simp [-bind_pure_comp, bind_apply, pure_apply, weigh_apply, name_apply]
    · simp [pure_apply]
  | some given =>
    dsimp only
    rw [bind_apply, Option.map_eq_some_iff, Option.bind_eq_some_iff]
    constructor
    · rintro ⟨⟨_ | _, filled⟩, hfill, h⟩
      · simp [pure_apply] at h
      · obtain ⟨w, inferred, hfit, rfl⟩ := fillArgument_eq_some_true_iff.mp hfill
        refine ⟨(w, inferred), hfit, ?_⟩
        simpa [-bind_pure_comp, bind_apply, pure_apply, weigh_apply, name_apply] using h
    · rintro ⟨⟨w, inferred⟩, hfit, rfl⟩
      refine ⟨_, fillArgument_eq_some_true_iff.mpr ⟨w, inferred, hfit, rfl⟩, ?_⟩
      simp [-bind_pure_comp, bind_apply, pure_apply, weigh_apply, name_apply]

/-- All parameters are filled where they are fitted one after another. -/
theorem allM_fillParameter_eq_some_true_iff {entries : List (Parameter × Nat)}
    {state state' : Fit × Inferred} :
    (entries.allM (fillParameter s depth names arguments)) state = some (true, state') ↔
      entries.foldlM (fitParameter s depth names arguments) state = some state' := by
  rw [allM_eq_some_true_iff, Stepwise.foldlM_eq_some_iff]
  simp only [fillParameter_eq_some_true_iff]

variable {parameters : List Parameter} {inferred inferred' : Inferred}

theorem fillParameters_apply : fillParameters s depth names parameters arguments inferred =
    if parameters.length < arguments.positional.length then some (none, inferred)
    else if namesFit names parameters arguments.positional.length []
        (arguments.named.map Prod.fst) then
      ((parameters.zipIdx.allM (fillParameter s depth names arguments)) ({}, inferred)).map
        fun r => if r.1 then (some r.2.1, r.2.2) else (none, inferred)
    else some (none, inferred) := by
  unfold fillParameters
  split
  · rfl
  split
  · simp only [bind, StateT.bind, get, getThe, MonadStateOf.get, StateT.get, pure,
      Option.bind_some, liftM, monadLift, MonadLift.monadLift, StateT.lift]
    rcases (parameters.zipIdx.allM (fillParameter s depth names arguments)) ({}, inferred) with
      _ | ⟨_ | _, fit, after⟩ <;> rfl
  · rfl

/-- **A run succeeds with what fits the parameters**, and then the caller sees what was inferred. -/
theorem fillParameters_eq_some_iff {fit : Fit} :
    fillParameters s depth names parameters arguments inferred = some (some fit, inferred') ↔
      fitParameters s depth names parameters arguments inferred = some (fit, inferred') := by
  rw [fillParameters_apply, fitParameters]
  split
  · simp
  split
  · rw [← allM_fillParameter_eq_some_true_iff]
    rcases (parameters.zipIdx.allM (fillParameter s depth names arguments)) ({}, inferred) with
      _ | ⟨_ | _, fit', after⟩ <;> simp
  · simp

/-- **A run that gives up leaves the slots of the caller as they were**, whatever it bound on the
way. -/
theorem eq_of_fillParameters_eq_some_none
    (h : fillParameters s depth names parameters arguments inferred = some (none, inferred')) :
    inferred' = inferred := by
  rw [fillParameters_apply] at h
  split_ifs at h
  · simpa using h.symm
  · obtain ⟨⟨_ | _, state⟩, -, h⟩ := Option.map_eq_some_iff.mp h
    · simpa using h.symm
    · simp at h
  · simpa using h.symm

end Run

/-! ### Sources -/

section Sources

variable {p : Parameter} {k : Nat}

/-- Nothing is supplied behind the positional arguments to a parameter whose name no argument
has. -/
theorem supplied?_eq_none_iff : supplied? names arguments k p = none ↔
    arguments.positional.length ≤ k ∧ ∀ name, p.givenName = some name →
      ∀ entry ∈ arguments.named, names.equal entry.1 name = false := by
  unfold supplied? Arguments.findNamed
  by_cases hk : k < arguments.positional.length
  · rw [List.getElem?_eq_getElem hk]
    simp [Nat.not_le.mpr hk]
  · rw [List.getElem?_eq_none (Nat.not_lt.mp hk)]
    simp [Nat.not_lt.mp hk, Option.bind_eq_none_iff]

/-- A positional argument goes to the parameter at its index. -/
theorem source?_eq_positional_iff {j : Nat} :
    arguments.source? names (p, k) = some (.positional j) ↔
      k < arguments.positional.length ∧ j = k := by
  unfold Arguments.source? supplied?
  by_cases hk : k < arguments.positional.length
  · rw [List.getElem?_eq_getElem hk]
    simp [hk, eq_comm]
  · rw [List.getElem?_eq_none (Nat.not_lt.mp hk)]
    cases p.givenName with
    | none => simp [hk]
    | some name =>
      dsimp only [Option.bind_some]
      cases arguments.findNamed names name <;> simp [hk]

/-- A named argument goes to a parameter of its name that is not filled by position. -/
theorem source?_eq_named_iff {name : String} :
    arguments.source? names (p, k) = some (.named name) ↔
      arguments.positional.length ≤ k ∧ p.givenName = some name ∧
        ∃ entry ∈ arguments.named, names.equal entry.1 name := by
  unfold Arguments.source? supplied?
  by_cases hk : k < arguments.positional.length
  · rw [List.getElem?_eq_getElem hk]
    simp [Nat.not_le.mpr hk]
  · rw [List.getElem?_eq_none (Nat.not_lt.mp hk)]
    cases p.givenName with
    | none => simp
    | some own =>
      have hfound : (arguments.findNamed names own).isSome ↔
          ∃ entry ∈ arguments.named, names.equal entry.1 own := by
        unfold Arguments.findNamed
        simp
      cases hown : arguments.findNamed names own with
      | none =>
        rw [hown] at hfound
        have hnone := hfound.not.mp (by simp)
        simp only [Option.bind_some, hown, Option.map_none, Option.some.injEq]
        refine iff_of_false (by simp) ?_
        rintro ⟨-, rfl, h⟩
        exact hnone h
      | some a =>
        rw [hown] at hfound
        have hsome := hfound.mp rfl
        simp only [Option.bind_some, hown, Option.map_some, Option.some.injEq, Source.named.injEq]
        constructor
        · rintro rfl
          exact ⟨Nat.not_lt.mp hk, rfl, hsome⟩
        · exact fun h => h.2.1

end Sources

/-! ### Counters -/

/-- **The counters agree with the sources** that are named so far. -/
structure Fit.Balanced (fit : Fit) : Prop where
  /-- Every parameter counts. -/
  total_eq : fit.weight.total = fit.sources.length
  /-- A parameter counts as left out if its source is its default. -/
  required_eq : fit.weight.required = fit.sources.count .default
  /-- Any other parameter counts as supplied. -/
  total_eq_add : fit.weight.total = fit.weight.required + fit.weight.specified
  /-- Only what is supplied can be identical. -/
  identical_le : fit.weight.identical ≤ fit.weight.specified

/-- What is supplied does not come from a default. -/
theorem ne_default_of_supplied? {k : Nat} {p : Parameter} {a : Argument} {source : Source}
    (h : supplied? names arguments k p = some (a, source)) : source ≠ .default := by
  unfold supplied? at h
  split at h
  · cases h
    exact Source.noConfusion
  · obtain ⟨name, -, h⟩ := Option.bind_eq_some_iff.mp h
    obtain ⟨a', -, h⟩ := Option.map_eq_some_iff.mp h
    cases h
    exact Source.noConfusion

/-- **Every parameter keeps the balance.** -/
theorem Fit.Balanced.fitParameter {entry : Parameter × Nat} {fit fit' : Fit × Inferred}
    (h : CallSite.fitParameter s depth names arguments fit entry = some fit')
    (hfit : fit.1.Balanced) : fit'.1.Balanced := by
  obtain ⟨htotal, hrequired, hadd, hidentical⟩ := hfit
  unfold CallSite.fitParameter at h
  dsimp only at h
  cases hsupplied : supplied? names arguments entry.2 entry.1 with
  | some given =>
    rw [hsupplied] at h
    obtain ⟨⟨w, inferred⟩, hargument, rfl⟩ := Option.map_eq_some_iff.mp h
    obtain ⟨htotal', hrequired', hspecified', hidentical'⟩ :=
      countsArgument_of_fitArgument hargument
    have hsource : [given.2].count .default = 0 :=
      List.count_eq_zero_of_not_mem fun hmem =>
        ne_default_of_supplied? hsupplied (List.mem_singleton.mp hmem).symm
    dsimp only at htotal' hrequired' hspecified' hidentical'
    constructor <;> simp only [List.length_append, List.length_singleton, List.count_append] <;>
      omega
  | none =>
    rw [hsupplied] at h
    dsimp only at h
    split at h
    case isTrue =>
      cases h
      constructor <;> simp <;> omega
    case isFalse => cases h

variable {parameters : List Parameter} {inferred inferred' : Inferred} {fit : Fit}

/-- **A fit is balanced.** -/
theorem balanced_of_fitParameters
    (h : fitParameters s depth names parameters arguments inferred = some (fit, inferred')) :
    fit.Balanced :=
  (stepwise_of_fitParameters h).keeps (P := fun state => state.1.Balanced)
    (fun _ _ _ _ hstep hstate => hstate.fitParameter hstep) ⟨rfl, rfl, rfl, Nat.le_refl _⟩

/-! ### What a fit accounts for -/

/-- **A fit accounts for a call**: for each parameter, for each argument, and for the slots. -/
structure Fit.Accounts (fit : Fit) (s : Store) (names : NameComparison)
    (parameters : List Parameter) (arguments : Arguments) (inferred inferred' : Inferred) :
    Prop where
  /-- There is one source for each parameter. -/
  length_eq : fit.sources.length = parameters.length
  /-- The positional arguments go to the first parameters, in order. -/
  positional_iff : ∀ k j : Nat, fit.sources[k]? = some (.positional j) ↔
    k < arguments.positional.length ∧ j = k
  /-- A name stands for an argument that has the name of the parameter, which is not empty. -/
  named_iff : ∀ (k : Nat) (p : Parameter) (name : String), parameters[k]? = some p →
    (fit.sources[k]? = some (.named name) ↔
      arguments.positional.length ≤ k ∧ p.givenName = some name ∧
        ∃ entry ∈ arguments.named, names.equal entry.1 name)
  /-- A default stands where there is no argument. -/
  default_iff : ∀ (k : Nat) (p : Parameter), parameters[k]? = some p →
    (fit.sources[k]? = some Source.default ↔
      arguments.positional.length ≤ k ∧ ∀ name, p.givenName = some name →
        ∀ entry ∈ arguments.named, names.equal entry.1 name = false)
  /-- Where a default stands, there is one. -/
  isOptional : ∀ (k : Nat) (p : Parameter), parameters[k]? = some p →
    fit.sources[k]? = some Source.default → p.isOptional
  /-- Every parameter counts. -/
  total_eq : fit.weight.total = parameters.length
  /-- It counts either as left out or as supplied. -/
  total_eq_add : fit.weight.total = fit.weight.required + fit.weight.specified
  /-- It counts as left out if its source is its default. -/
  required_eq : fit.weight.required = fit.sources.count .default
  /-- Only what is supplied can be identical. -/
  identical_le : fit.weight.identical ≤ fit.weight.specified
  /-- What was bound to a parameter of the queried type stays bound. -/
  typeSlots : inferred.typeSlots.Extends inferred'.typeSlots
  /-- What was bound to a parameter of the method stays bound. -/
  methodSlots : inferred.methodSlots.Extends inferred'.methodSlots
  /-- Null goes to parameters that admit it. -/
  isNullAssignable : ∀ (k : Nat) (p : Parameter) (a : Argument), parameters[k]? = some p →
    arguments.given? names (p, k) = some a → a.type = none → s.isNullAssignable p.type

/-- **What fits accounts for the call.** -/
theorem accounts_of_fitParameters
    (h : fitParameters s depth names parameters arguments inferred = some (fit, inferred')) :
    fit.Accounts s names parameters arguments inferred inferred' := by
  have haddresses := (fitParameters_eq_some_iff.mp h).1
  have hbalanced := balanced_of_fitParameters h
  have hextends := extends_of_stepwise (stepwise_of_fitParameters h)
  have hdefault : ∀ {k p}, parameters[k]? = some p → fit.sources[k]? = some .default →
      supplied? names arguments k p = none ∧ p.isOptional := fun {k p} hp hk => by
    rw [haddresses.getElem? hp, Arguments.source?] at hk
    cases hsupplied : supplied? names arguments k p with
    | none =>
      rw [hsupplied] at hk
      exact ⟨rfl, by simpa using hk⟩
    | some given =>
      rw [hsupplied] at hk
      exact absurd (Option.some.inj hk) (ne_default_of_supplied? hsupplied)
  refine ⟨haddresses.length_eq, fun k j => ?_, fun k p name hp => ?_, fun k p hp => ?_,
    fun k p hp hk => (hdefault hp hk).2, hbalanced.total_eq.trans haddresses.length_eq,
    hbalanced.total_eq_add, hbalanced.required_eq, hbalanced.identical_le, hextends.typeSlots,
    hextends.methodSlots, fun k p a hp hgiven hnull => ?_⟩
  case refine_1 =>
    cases hp : parameters[k]? with
    | some p => rw [haddresses.getElem? hp, source?_eq_positional_iff]
    | none =>
      have hk := List.getElem?_eq_none_iff.mp hp
      rw [List.getElem?_eq_none (haddresses.length_eq.trans_le hk)]
      have hpositional := haddresses.length_le
      exact iff_of_false (by simp) (by omega)
  case refine_2 => rw [haddresses.getElem? hp, source?_eq_named_iff]
  case refine_3 =>
    rw [← supplied?_eq_none_iff]
    refine ⟨fun hk => (hdefault hp hk).1, fun hnone => ?_⟩
    have hoptional := isOptional_of_addresses haddresses
      (List.mem_zipIdx_iff_getElem?.mpr hp : (p, k) ∈ parameters.zipIdx)
      (by rw [Arguments.given?, hnone, Option.map_none])
    rw [haddresses.getElem? hp, Arguments.source?, hnone]
    exact if_pos hoptional
  case refine_4 =>
    obtain ⟨⟨a', source⟩, hsupplied, rfl⟩ := Option.map_eq_some_iff.mp hgiven
    exact (exists_match_of_fitParameters h hp hsupplied).1 hnull

/-- **Filling a list of parameters is all or nothing**, and it accounts for every parameter: a run
that gives up leaves the slots as they were, and one that succeeds says where each value comes from,
counts each parameter once and keeps what was bound. -/
theorem fillParameters_accounts (s : Store) (depth : Nat) (names : NameComparison)
    (parameters : List Parameter) (arguments : Arguments) (inferred inferred' : Inferred) :
    (fillParameters s depth names parameters arguments inferred = some (none, inferred') →
      inferred' = inferred) ∧
    ∀ fit, fillParameters s depth names parameters arguments inferred = some (some fit, inferred') →
      fit.Accounts s names parameters arguments inferred inferred' :=
  ⟨eq_of_fillParameters_eq_some_none,
    fun _ h => accounts_of_fitParameters (fillParameters_eq_some_iff.mp h)⟩

/-- The parameters of a method of boxes: a value of the box, a number, and a text that may be left
out. -/
def boxParameters : List Parameter :=
  [⟨0, "value", ⟨28⟩, none, false⟩, ⟨1, "count", Core.int32, none, false⟩,
    ⟨2, "label", Core.string, some .ofType, false⟩]

/-- The parameter of boxes has an empty slot. -/
def boxSlots : Inferred :=
  { typeSlots := Slots.ofArity (.type ⟨27⟩) 1 }

/-- Two calls of a method of boxes. The first one passes a text and names the number, and what it
leaves out is the label. The second one passes a text for the number, which is refused behind the
value, whose type was inferred by then. -/
theorem fillParameters_accounts_box :
    ∃ s fit inferred', s = (Store.initial.define "Box" .classKind ["T"]).2 ∧
      fillParameters s 30 .caseSensitive boxParameters
        { positional := [.ofType Core.string], named := [("count", .ofType Core.int32)] } boxSlots =
          some (some fit, inferred') ∧
      fit.sources = [.positional 0, .named "count", .default] ∧
      fit.Accounts s .caseSensitive boxParameters
        { positional := [.ofType Core.string], named := [("count", .ofType Core.int32)] } boxSlots
        inferred' ∧
      fillParameters s 30 .caseSensitive boxParameters
        { positional := [.ofType Core.string, .ofType Core.string] } boxSlots =
          some (none, boxSlots) := by
  have hfills : (fillParameters (Store.initial.define "Box" .classKind ["T"]).2 30 .caseSensitive
      boxParameters
      { positional := [.ofType Core.string], named := [("count", .ofType Core.int32)] }
      boxSlots).any (fun (fit, _) => fit.any fun fit =>
        fit.sources = [.positional 0, .named "count", .default]) := by
    decide +kernel
  have hgivesUp : (fillParameters (Store.initial.define "Box" .classKind ["T"]).2 30 .caseSensitive
      boxParameters { positional := [.ofType Core.string, .ofType Core.string] } boxSlots).any
      fun (fit, _) => fit.isNone := by
    decide +kernel
  obtain ⟨⟨fit, inferred'⟩, hrun, hsources⟩ := Option.any_eq_true _ _ |>.mp hfills
  obtain ⟨fit, rfl, hsources⟩ := Option.any_eq_true _ _ |>.mp hsources
  obtain ⟨⟨nothing, after⟩, hrun', hnothing⟩ := Option.any_eq_true _ _ |>.mp hgivesUp
  obtain rfl := Option.isNone_iff_eq_none.mp hnothing
  refine ⟨_, fit, inferred', rfl, hrun, of_decide_eq_true hsources,
    (fillParameters_accounts _ _ _ _ _ _ _).2 fit hrun, ?_⟩
  obtain rfl := (fillParameters_accounts _ _ _ _ _ _ _).1 hrun'
  exact hrun'

end CallSite
