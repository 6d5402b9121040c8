import CallSite.Host
import CallSite.Proofs.Call.Accounting
import Mathlib.Data.List.Basic

/-!
# What a member writes

After a call the values of the parameters that are passed by reference are handed back, one after
another. An argument is found by its place, and nothing that is handed back touches a name, so the
places are those that the arguments had before the call, and of several values that go to one place
the last one stays.

* `Arguments.argument?`, `Arguments.put` – the argument at a place.
* `Arguments.withoutValues` – all that a value does not touch.
* `Arguments.WrittenBack` – what a caller can rely on.
* `Host.writtenBack` – it is so.
-/

namespace CallSite

/-! ### Places -/

/-- An argument with another value. -/
def Argument.holding (value : Value) (a : Argument) : Argument :=
  { a with value := value }

namespace Arguments

variable (arguments : Arguments)

/-- The argument at a place. -/
def argument? : Place → Option Argument
  | .positional index => arguments.positional[index]?
  | .named index => arguments.named[index]?.map Prod.snd

/-- Give the argument at a place another value. -/
def put (write : Place × Value) : Arguments :=
  match write.1 with
  | .positional index => arguments.setPositional index write.2
  | .named index =>
    { arguments with
      named := arguments.named.modify index (Prod.map id (Argument.holding write.2)) }

/-- **All that a value does not touch**: how many arguments there are, in which order, their names
and types, and how names are compared. -/
def withoutValues : Arguments :=
  { arguments with
    positional := arguments.positional.map (Argument.holding .null)
    named := arguments.named.map (Prod.map id (Argument.holding .null)) }

variable {arguments} {arguments' : Arguments} {names : NameComparison}

/-- To find a place takes no value. -/
theorem place?_of_withoutValues_eq (h : arguments'.withoutValues = arguments.withoutValues) :
    arguments'.place? names = arguments.place? names := by
  have hplace : ∀ arguments : Arguments,
      arguments.withoutValues.place? names = arguments.place? names := fun arguments => by
    funext source
    cases source with
    | positional | default => rfl
    | named name =>
      rw [place?, place?, withoutValues, List.findIdx?_map]
      rfl
  rw [← hplace arguments', h, hplace]

theorem withoutValues_put (write : Place × Value) :
    (arguments.put write).withoutValues = arguments.withoutValues := by
  have hmodify : ∀ {α : Type} (forget change : α → α) (items : List α) (index : Nat),
      (∀ a, forget (change a) = forget a) →
        (items.modify index change).map forget = items.map forget := by
    intro α forget change items index hforget
    refine List.ext_getElem? fun k => ?_
    rw [List.getElem?_map, List.getElem?_map]
    by_cases hk : index = k
    case pos =>
      rw [hk, List.getElem?_modify_eq, Option.map_eq_map, Option.map_map]
      exact congrArg (Option.map · items[k]?) (funext hforget)
    case neg => rw [List.getElem?_modify_ne _ _ hk]
  obtain ⟨place, value⟩ := write
  cases place with
  | positional index =>
    exact congrArg (fun positional => { arguments.withoutValues with positional })
      (hmodify (Argument.holding .null) (Argument.holding value) arguments.positional index
        fun _ => rfl)
  | named index =>
    exact congrArg (fun named => { arguments.withoutValues with named })
      (hmodify (Prod.map id (Argument.holding .null)) (Prod.map id (Argument.holding value))
        arguments.named index fun _ => rfl)

theorem argument?_put_self (place : Place) (value : Value) :
    (arguments.put (place, value)).argument? place =
      (arguments.argument? place).map (Argument.holding value) := by
  cases place with
  | positional index => exact List.getElem?_modify_eq _ _ _
  | named index =>
    refine (congrArg (Option.map Prod.snd) (List.getElem?_modify_eq _ _ _)).trans ?_
    rw [argument?, Option.map_eq_map, Option.map_map, Option.map_map]
    rfl

theorem argument?_put_of_ne {write : Place × Value} {place : Place} (h : write.1 ≠ place) :
    (arguments.put write).argument? place = arguments.argument? place := by
  obtain ⟨place', value⟩ := write
  cases place' <;> cases place
  case positional.positional i j =>
    exact List.getElem?_modify_ne _ _ fun hij => h (congrArg Place.positional hij)
  case named.named i j =>
    exact congrArg (Option.map Prod.snd)
      (List.getElem?_modify_ne _ _ fun hij => h (congrArg Place.named hij))
  case positional.named | named.positional => rfl

/-! ### One write after another -/

theorem withoutValues_foldl_put (writes : List (Place × Value)) :
    (writes.foldl put arguments).withoutValues = arguments.withoutValues := by
  induction writes generalizing arguments with
  | nil => rfl
  | cons write writes ih => exact ih.trans (withoutValues_put write)

/-- What is not written to stays. -/
theorem argument?_foldl_put_of_ne {writes : List (Place × Value)} {place : Place}
    (h : ∀ write ∈ writes, write.1 ≠ place) :
    (writes.foldl put arguments).argument? place = arguments.argument? place := by
  induction writes generalizing arguments with
  | nil => rfl
  | cons write writes ih =>
    exact (ih fun write hmem => h write (List.mem_cons_of_mem _ hmem)).trans
      (argument?_put_of_ne (h write List.mem_cons_self))

/-- **The last value stays.** -/
theorem argument?_foldl_put_of_last {before behind : List (Place × Value)} {place : Place}
    {value : Value} (h : ∀ write ∈ behind, write.1 ≠ place) :
    ((before ++ (place, value) :: behind).foldl put arguments).argument? place =
      (arguments.argument? place).map (Argument.holding value) := by
  have hother : ∀ (writes : List (Place × Value)) (arguments : Arguments),
      ((writes.foldl put arguments).argument? place).map (Argument.holding value) =
        (arguments.argument? place).map (Argument.holding value) := by
    intro writes
    induction writes with
    | nil => exact fun _ => rfl
    | cons write writes ih =>
      intro arguments
      refine (ih _).trans ?_
      by_cases hplace : write.1 = place
      case pos =>
        subst hplace
        rw [show arguments.put write = arguments.put (write.1, write.2) from rfl,
          argument?_put_self, Option.map_map]
        rfl
      case neg => rw [argument?_put_of_ne hplace]
  rw [List.foldl_append, List.foldl_cons, argument?_foldl_put_of_ne h, argument?_put_self, hother]

end Arguments

/-! ### Handing values back -/

/-- The place of the argument that supplies a parameter. -/
def Resolution.place? (answer : Resolution) (names : NameComparison) (arguments : Arguments)
    (k : Nat) : Option Place :=
  answer.fit.sources[k]?.bind (arguments.place? names)

/-- **The values of a call were handed back**: what has no value to hold stays as it is, and an
argument that supplies a parameter which is passed by reference holds what the member left there.
Where it supplies several of them, it holds what was left in the last one. -/
structure Arguments.WrittenBack (arguments arguments' : Arguments) (s : Store)
    (names : NameComparison) (answer : Resolution) (values : List Value) : Prop where
  /-- Nothing but values is touched. -/
  withoutValues_eq : arguments'.withoutValues = arguments.withoutValues
  /-- What supplies no parameter that is passed by reference stays. -/
  unchanged : ∀ place, (∀ k p, answer.member.parameters[k]? = some p → p.isByRef s →
    answer.place? names arguments k ≠ some place) →
    arguments'.argument? place = arguments.argument? place
  /-- What supplies one holds what was left there. -/
  written : ∀ k p place, answer.member.parameters[k]? = some p → p.isByRef s →
    answer.place? names arguments k = some place →
    (∀ k' p', k < k' → answer.member.parameters[k']? = some p' → p'.isByRef s →
      answer.place? names arguments k' ≠ some place) →
    (arguments'.argument? place).map Argument.value = values[k]?

section WriteBack

variable {s : Store} {names : NameComparison} {arguments : Arguments}

/-- To give the first item that passes a test another form is to do so at its index. -/
theorem updateFirst_eq {α : Type} (test : α → Bool) (change : α → α) (items : List α) :
    updateFirst test change items =
      match items.findIdx? test with
      | some index => items.modify index change
      | none => items := by
  induction items with
  | nil => rfl
  | cons item items ih =>
    rw [updateFirst, List.findIdx?_cons]
    split
    · rfl
    · rw [ih]
      cases items.findIdx? test <;> rfl

/-- What one parameter hands back, and to which place. -/
def writeOf? (s : Store) (names : NameComparison) (arguments : Arguments)
    (entry : (Parameter × Source) × Value) : Option (Place × Value) :=
  if entry.1.1.isByRef s then (arguments.place? names entry.1.2).map (·, entry.2) else none

theorem writeBackOne_eq (entry : (Parameter × Source) × Value) :
    Host.writeBackOne s names arguments entry =
      (writeOf? s names arguments entry).elim arguments arguments.put := by
  obtain ⟨⟨p, source⟩, value⟩ := entry
  unfold Host.writeBackOne writeOf?
  dsimp only
  split
  case isFalse => rfl
  case isTrue =>
    cases source with
    | positional | default => rfl
    | named name =>
      dsimp only [Arguments.place?]
      rw [Arguments.setNamed, updateFirst_eq]
      cases arguments.named.findIdx? fun entry => names.equal entry.1 name <;> rfl

/-- **To hand values back is to put them in their places**, which are those that the arguments have
at first. -/
theorem foldl_writeBackOne_eq (entries : List ((Parameter × Source) × Value)) :
    entries.foldl (Host.writeBackOne s names) arguments =
      (entries.filterMap (writeOf? s names arguments)).foldl Arguments.put arguments := by
  -- A write changes values only, so the places of the arguments are the same after each of them.
  have hinvariant : ∀ arguments' : Arguments, arguments'.withoutValues = arguments.withoutValues →
      entries.foldl (Host.writeBackOne s names) arguments' =
        (entries.filterMap (writeOf? s names arguments)).foldl Arguments.put arguments' := by
    induction entries with
    | nil => exact fun _ _ => rfl
    | cons entry entries ih =>
      intro arguments' hsame
      have hwrite : writeOf? s names arguments' entry = writeOf? s names arguments entry := by
        rw [writeOf?, writeOf?, Arguments.place?_of_withoutValues_eq hsame]
      rw [List.foldl_cons, List.filterMap_cons, writeBackOne_eq, hwrite]
      cases writeOf? s names arguments entry with
      | none => exact ih arguments' hsame
      | some write => exact ih _ ((Arguments.withoutValues_put write).trans hsame)
  exact hinvariant arguments rfl

/-- In every place there is an argument. -/
theorem Arguments.isSome_argument? {place : Place} (hplace : place ∈ arguments.places) :
    (arguments.argument? place).isSome := by
  obtain ⟨index, hindex, rfl⟩ | ⟨index, hindex, rfl⟩ := mem_places.mp hplace
  · rw [argument?, List.getElem?_eq_getElem hindex]
    rfl
  · rw [argument?, List.getElem?_eq_getElem hindex]
    rfl

/-- **What a call leaves in its arguments** is what the member left in its parameters. -/
theorem Host.writtenBack (host : Host) {answer : Resolution} {values : List Value}
    (haddresses : arguments.Addresses (host.comparison arguments) answer.member.parameters
      answer.fit.sources) (hlength : values.length = answer.member.parameters.length) :
    arguments.WrittenBack (host.writeBack s answer values arguments) s (host.comparison arguments)
      answer values := by
  rw [writeBack, foldl_writeBackOne_eq]
  generalize host.comparison arguments = names at haddresses ⊢
  -- A write to a place is that of a parameter, by its index.
  have hwrite : ∀ (entry : (Parameter × Source) × Value) (write : Place × Value) (k : Nat),
      ((answer.member.parameters.zip answer.fit.sources).zip values)[k]? = some entry →
      writeOf? s names arguments entry = some write →
      answer.member.parameters[k]? = some entry.1.1 ∧ entry.1.1.isByRef s ∧
        answer.place? names arguments k = some write.1 := by
    intro entry write k hentry hwrite
    obtain ⟨hpair, -⟩ := List.getElem?_zip_eq_some.mp hentry
    obtain ⟨hp, hsource⟩ := List.getElem?_zip_eq_some.mp hpair
    unfold writeOf? at hwrite
    split at hwrite
    case isFalse => cases hwrite
    case isTrue href =>
      obtain ⟨place, hplace, rfl⟩ := Option.map_eq_some_iff.mp hwrite
      exact ⟨hp, href, by rw [Resolution.place?, hsource, Option.bind_some, hplace]⟩
  refine ⟨Arguments.withoutValues_foldl_put _, fun place hplace => ?_, ?_⟩
  · refine Arguments.argument?_foldl_put_of_ne fun write hmem heq => ?_
    obtain ⟨entry, hentry, hsome⟩ := List.mem_filterMap.mp hmem
    obtain ⟨k, hk⟩ := List.mem_iff_getElem?.mp hentry
    obtain ⟨hp, href, hsupplies⟩ := hwrite entry write k hk hsome
    exact hplace k _ hp href (heq ▸ hsupplies)
  · intro k p place hp href hplace hlast
    obtain ⟨source, hsource, hsourceplace⟩ := Option.bind_eq_some_iff.mp hplace
    obtain ⟨value, hvalue⟩ : ∃ value, values[k]? = some value := by
      refine ⟨_, List.getElem?_eq_getElem ?_⟩
      rw [hlength]
      exact (List.getElem?_eq_some_iff.mp hp).1
    have hentry : ((answer.member.parameters.zip answer.fit.sources).zip values)[k]? =
        some ((p, source), value) :=
      List.getElem?_zip_eq_some.mpr ⟨List.getElem?_zip_eq_some.mpr ⟨hp, hsource⟩, hvalue⟩
    obtain ⟨hk, hget⟩ := List.getElem?_eq_some_iff.mp hentry
    have hown : writeOf? s names arguments ((p, source), value) = some (place, value) := by
      rw [writeOf?, if_pos href, hsourceplace]
      rfl
    -- The writes are those before this one, this one, and those behind it, none of which goes to
    -- its place.
    rw [← List.take_append_drop k ((answer.member.parameters.zip answer.fit.sources).zip values),
      List.drop_eq_getElem_cons hk, hget, List.filterMap_append,
      List.filterMap_cons_some hown, Arguments.argument?_foldl_put_of_last, hvalue]
    · have hthere := Arguments.isSome_argument?
        (haddresses.mem_places_of_mem (List.mem_of_getElem? hsource) hsourceplace)
      obtain ⟨a, ha⟩ := Option.isSome_iff_exists.mp hthere
      rw [ha]
      rfl
    · intro write hmem heq
      obtain ⟨entry, hentry, hsome⟩ := List.mem_filterMap.mp hmem
      obtain ⟨j, hj⟩ := List.mem_iff_getElem?.mp hentry
      rw [List.getElem?_drop] at hj
      obtain ⟨hp, href, hsupplies⟩ := hwrite entry write _ hj hsome
      exact hlast _ _ (Nat.lt_of_lt_of_le (Nat.lt_succ_self k) (Nat.le_add_right _ _)) hp href
        (heq ▸ hsupplies)

end WriteBack

end CallSite
