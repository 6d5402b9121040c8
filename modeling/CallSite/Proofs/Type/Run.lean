import CallSite.Proofs.Type.Growth

/-!
# What one call of a construction does

The three constructions of `CallSite.construct` call each other, each with one less nesting to go.
Here one call is said once, by what it meets in the store; the calls below it stay as they are.

* `substituteWithin_of_parameter`, `substituteWithin_of_array`, `substituteWithin_of_reference`,
  `substituteWithin_of_named` – a substitution, by the form of the type.
* `constructWithin_cases` – a construction refuses what it is given, returns a type that is there,
  or enters a row and works out what stands above it.
-/

namespace CallSite

/-! ### A substitution, by the form of the type -/

section Substitution

variable {σ : Substitution} {s : Store} {t : TypeId}

theorem substituteWithin_of_isEmpty (hσ : σ.isEmpty) (depth : Nat) (t : TypeId) (s : Store) :
    substituteWithin (depth + 1) σ t s = .ok t s := by
  rw [substituteWithin, if_pos hσ]
  rfl

theorem substituteWithin_of_parameter (hσ : ¬ σ.isEmpty) {p : GenericParameter}
    (hp : (s.info t).shape = .parameter p) (depth : Nat) :
    substituteWithin (depth + 1) σ t s = .ok ((σ.lookup p).getD t) s := by
  rw [substituteWithin, if_neg hσ, get_bind_apply, hp]
  rfl

theorem substituteWithin_of_array (hσ : ¬ σ.isEmpty) {e : TypeId} {rank : Nat}
    (hf : s.form t = .array e rank) (depth : Nat) :
    substituteWithin (depth + 1) σ t s = (do
      let u ← substituteWithin depth σ e
      if u = e then return t else arrayOfWithin depth u rank) s := by
  rw [substituteWithin, if_neg hσ, get_bind_apply, TypeInfo.form_eq_array_iff.mp hf]

theorem substituteWithin_of_reference (hσ : ¬ σ.isEmpty) {e : TypeId}
    (hf : s.form t = .reference e) (depth : Nat) :
    substituteWithin (depth + 1) σ t s = (do
      let u ← substituteWithin depth σ e
      if u = e then return t else byRef u) s := by
  rw [substituteWithin, if_neg hσ, get_bind_apply, TypeInfo.form_eq_reference_iff.mp hf]

/-- A type without arguments stays, and in any other type the arguments are replaced. -/
theorem substituteWithin_of_named (hσ : ¬ σ.isEmpty) {shape : Shape} {d : Option TypeId}
    {as : List TypeId} (hf : s.form t = .named shape d as) (depth : Nat) :
    substituteWithin (depth + 1) σ t s = (if as = [] then return t else do
      let us ← as.mapM (substituteWithin depth σ)
      if us = as then return t else constructWithin depth (s.head t) us) s := by
  obtain ⟨hshape, -, rfl, hkind⟩ := TypeInfo.form_eq_named_iff.mp hf
  have hrun : substituteWithin (depth + 1) σ t s = (if (s.info t).isGeneric then do
      let us ← (s.info t).arguments.mapM (substituteWithin depth σ)
      if us = (s.info t).arguments then return t else constructWithin depth (s.head t) us
      else return t) s := by
    rw [substituteWithin, if_neg hσ, get_bind_apply, hshape]
    rcases hkind with rfl | rfl | rfl <;> rfl
  rw [hrun]
  by_cases hnil : (s.info t).arguments = []
  · rw [if_pos hnil, if_neg (by rw [TypeInfo.isGeneric_iff]; exact not_not.mpr hnil)]
  · rw [if_neg hnil, if_pos (TypeInfo.isGeneric_iff.mpr hnil)]

end Substitution

/-! ### A construction -/

/-- What stands above a type is worked out from the row of its definition, and entered in its own
row. -/
def enterAbove (depth : Nat) (info : TypeInfo) (σ : Substitution) (t : TypeId) : TypeM TypeId := do
  let base ← info.base.mapM (substituteWithin depth σ)
  let interfaces ← info.interfaces.mapM (substituteWithin depth σ)
  modify (·.edit t fun row => { row with base := base, interfaces := interfaces })
  return t

section Construct

variable {s : Store} {d : TypeId} {args : List TypeId}

theorem constructWithin_of_not_isDefinition (hdef : ¬ (s.info d).isDefinition) (depth : Nat)
    (args : List TypeId) :
    constructWithin (depth + 1) d args s = .error (.notDefinition (s.display d)) s := by
  rw [constructWithin, get_bind_apply]
  dsimp only
  rw [if_pos (by simp [hdef])]
  rfl

theorem constructWithin_of_length_ne (hdef : (s.info d).isDefinition)
    (hlen : (s.info d).arguments.length ≠ args.length) (depth : Nat) :
    constructWithin (depth + 1) d args s = .error (.argumentCount (s.display d)
      (s.info d).arguments.length args.length) s := by
  rw [constructWithin, get_bind_apply]
  dsimp only
  rw [if_neg (by simp [hdef]), if_pos hlen]
  rfl

/-- The own parameters of a definition give the definition itself. -/
theorem constructWithin_of_own (hdef : (s.info d).isDefinition) (depth : Nat) :
    constructWithin (depth + 1) d (s.info d).arguments s = .ok d s := by
  rw [constructWithin, get_bind_apply]
  dsimp only
  rw [if_neg (by simp [hdef]), if_neg (not_not.mpr rfl), if_pos rfl]
  rfl

variable (hdef : (s.info d).isDefinition) (hlen : (s.info d).arguments.length = args.length)
  (hown : (s.info d).arguments ≠ args)

include hdef hlen hown

/-- A type that was constructed before is found. -/
theorem constructWithin_of_found {t : TypeId} (hfound : s.constructed? d args = some t)
    (depth : Nat) : constructWithin (depth + 1) d args s = .ok t s := by
  rw [constructWithin, get_bind_apply]
  dsimp only
  rw [if_neg (by simp [hdef]), if_neg (not_not.mpr hlen), if_neg hown, hfound]
  rfl

/-- A type that was not constructed before is entered first, and what stands above it is worked out
after that. -/
theorem constructWithin_of_new (hnone : s.constructed? d args = none) (depth : Nat) :
    constructWithin (depth + 1) d args s =
      enterAbove depth (s.info d) (.forType d args) s.next
        (s.add (constructedInfo (s.info d) d args)).2 := by
  rw [constructWithin, get_bind_apply]
  dsimp only
  rw [if_neg (by simp [hdef]), if_neg (not_not.mpr hlen), if_neg hown, hnone]
  rfl

end Construct

/-- **What a construction does**: it refuses what is no definition or has another number of
parameters, it returns a type that is there, or it enters a row and works out what stands above
it. -/
theorem constructWithin_cases (depth : Nat) (d : TypeId) (args : List TypeId) (s : Store) :
    ((∃ e, constructWithin (depth + 1) d args s = .error e s) ∧
      ¬ ((s.info d).isDefinition ∧ (s.info d).arguments.length = args.length)) ∨
    ((s.info d).isDefinition ∧ (s.info d).arguments.length = args.length) ∧
      ((∃ t, constructWithin (depth + 1) d args s = .ok t s ∧
          ((s.info d).arguments = args ∧ t = d ∨ s.constructed? d args = some t)) ∨
        (s.info d).arguments ≠ args ∧ s.constructed? d args = none ∧
          constructWithin (depth + 1) d args s =
            enterAbove depth (s.info d) (.forType d args) s.next
              (s.add (constructedInfo (s.info d) d args)).2) := by
  by_cases hdef : (s.info d).isDefinition
  swap
  · exact .inl ⟨⟨_, constructWithin_of_not_isDefinition hdef depth args⟩, fun h => hdef h.1⟩
  by_cases hlen : (s.info d).arguments.length = args.length
  swap
  · exact .inl ⟨⟨_, constructWithin_of_length_ne hdef hlen depth⟩, fun h => hlen h.2⟩
  refine .inr ⟨⟨hdef, hlen⟩, ?_⟩
  by_cases hown : (s.info d).arguments = args
  · exact .inl ⟨d, hown ▸ constructWithin_of_own hdef depth, .inl ⟨hown, rfl⟩⟩
  cases hfound : s.constructed? d args with
  | some t => exact .inl ⟨t, constructWithin_of_found hdef hlen hown hfound depth, .inr rfl⟩
  | none => exact .inr ⟨hown, rfl, constructWithin_of_new hdef hlen hown hfound depth⟩

end CallSite
