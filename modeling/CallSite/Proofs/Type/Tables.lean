import CallSite.Proofs.Type.Run
import CallSite.Member.Substitute
import Mathlib.Order.Defs.Unbundled

/-!
# The tables of a store

Beside its rows a store keeps tables: the names of types, the method parameters that were made
again, and how many methods were met. To make types from types leaves them alone
(`Store.SameTables`); to make method parameters again adds to them and replaces nothing
(`Store.KeepsTables`).

Both are relations between the store before a computation and the store after it, whether the
computation succeeds or fails. `Along` says this of a relation, and there is one rule for each way
to put computations together. What types are made from types by is a run of three kinds of steps
(`Store.BuildStep`), so a relation that each step keeps is kept by all constructions
(`along_construct`).
-/

namespace CallSite

/-- The store that a computation leaves behind, whether it succeeds or fails. -/
def storeAfter {ε α : Type} (x : EStateM ε Store α) (s : Store) : Store :=
  match x s with
  | .ok _ s' => s'
  | .error _ s' => s'

theorem storeAfter_of_ok {ε α : Type} {x : EStateM ε Store α} {s s' : Store} {a : α}
    (h : x s = .ok a s') : storeAfter x s = s' := by
  rw [storeAfter, h]

theorem storeAfter_of_error {ε α : Type} {x : EStateM ε Store α} {s s' : Store} {e : ε}
    (h : x s = .error e s') : storeAfter x s = s' := by
  rw [storeAfter, h]

theorem storeAfter_congr {ε α : Type} {x y : EStateM ε Store α} {s s' : Store} (h : x s = y s') :
    storeAfter x s = storeAfter y s' := by
  rw [storeAfter, storeAfter, h]

/-- **A computation takes every store to one that it is related to.** -/
def Along {ε α : Type} (R : Store → Store → Prop) (x : EStateM ε Store α) : Prop :=
  ∀ s, R s (storeAfter x s)

namespace Along

variable {ε α β : Type} {R : Store → Store → Prop} {x : EStateM ε Store α}

theorem imp (h : Along R x) {R' : Store → Store → Prop} (himp : ∀ s s', R s s' → R' s s') :
    Along R' x :=
  fun s => himp _ _ (h s)

theorem pure [Std.Refl R] (a : α) : Along R (Pure.pure a : EStateM ε Store α) :=
  refl_of R

theorem modify {change : Store → Store} (h : ∀ s, R s (change s)) :
    Along R (modify change : EStateM ε Store PUnit) :=
  h

/-- One computation after another, of which the first begins with a given store. -/
theorem bind_at [IsTrans Store R] {s : Store} (hfirst : R s (storeAfter x s))
    {f : α → EStateM ε Store β} (hf : ∀ a, Along R (f a)) : R s (storeAfter (x >>= f) s) := by
  cases hx : x s with
  | ok a s' =>
    rw [storeAfter_of_ok hx] at hfirst
    have hrun : storeAfter (x >>= f) s = storeAfter (f a) s' := by
      rw [storeAfter, bind_apply_of_ok hx]
      rfl
    rw [hrun]
    exact trans_of R hfirst (hf a s')
  | error e s' =>
    rw [storeAfter_of_error hx] at hfirst
    rw [storeAfter_of_error (bind_apply_of_error hx f)]
    exact hfirst

/-- **One computation after another.** -/
theorem bind [IsTrans Store R] (h : Along R x) {f : α → EStateM ε Store β}
    (hf : ∀ a, Along R (f a)) : Along R (x >>= f) :=
  fun s => bind_at (h s) hf

theorem get_bind {f : Store → EStateM ε Store β} (hf : ∀ s, R s (storeAfter (f s) s)) :
    Along R (get >>= f) :=
  hf

theorem mapM [Std.Refl R] [IsTrans Store R] {f : α → EStateM ε Store β}
    (hf : ∀ a, Along R (f a)) (items : List α) : Along R (items.mapM f) := by
  induction items with
  | nil => exact .pure _
  | cons a items ih =>
    rw [List.mapM_cons]
    exact (hf a).bind fun _ => ih.bind fun _ => .pure _

theorem option_mapM [Std.Refl R] [IsTrans Store R] {f : α → EStateM ε Store β}
    (hf : ∀ a, Along R (f a)) (o : Option α) : Along R (o.mapM f) := by
  cases o with
  | none => exact .pure _
  | some a => exact (hf a).bind fun _ => .pure _

theorem forM [Std.Refl R] [IsTrans Store R] {f : α → EStateM ε Store PUnit}
    (hf : ∀ a, Along R (f a)) (items : List α) : Along R (items.forM f) := by
  induction items with
  | nil => exact .pure _
  | cons a items ih => exact (hf a).bind fun _ => ih

end Along

/-! ### Types that are made from types -/

/-- **One step of making types from types.** -/
inductive Store.BuildStep : Store → Store → Prop
  /-- A row is appended that was not constructed from a definition and is no parameter. -/
  | plain (s : Store) {row : TypeInfo} : row.definition = none → row.isParameter = false →
      BuildStep s (s.add row).2
  /-- A row is appended that is constructed from a definition. -/
  | constructed (s : Store) {d : TypeId} (args : List TypeId) :
      (s.info d).isDefinition → BuildStep s (s.add (constructedInfo (s.info d) d args)).2
  /-- What stands above a type is entered in its row. -/
  | above (s : Store) (t : TypeId) (base : Option TypeId) (interfaces : List TypeId) :
      BuildStep s (s.edit t fun row => { row with base := base, interfaces := interfaces })

/-- A relation is kept by the three constructions, with a bound on their nesting. -/
structure KeptByBuilding (R : Store → Store → Prop) (depth : Nat) : Prop where
  /-- By a substitution. -/
  substitute : ∀ σ t, Along R (substituteWithin depth σ t)
  /-- By a construction. -/
  construct : ∀ d args, Along R (constructWithin depth d args)
  /-- By an array. -/
  array : ∀ e rank, Along R (arrayOfWithin depth e rank)

section Construction

variable {R : Store → Store → Prop} [Std.Refl R] [IsTrans Store R]
  (hstep : ∀ s s', Store.BuildStep s s' → R s s')

include hstep

omit [IsTrans Store R] in
theorem along_byRef (e : TypeId) : Along R (byRef e) := by
  refine .get_bind fun s => ?_
  split
  · exact refl_of _ s
  · exact hstep _ _ (.plain s rfl rfl)

omit [IsTrans Store R] in
/-- An array is found, or its row is added. -/
theorem along_arrayOrAdd (e : TypeId) (rank : Nat) (interfaces : List TypeId) :
    Along R (do
      let s ← get
      match s.array? e (max rank 1) with
      | some t => return t
      | none => addType (arrayInfo s e (max rank 1) interfaces)) := by
  refine .get_bind fun s => ?_
  split
  · exact refl_of _ s
  · exact hstep _ _ (.plain s rfl rfl)

section Step

variable {depth : Nat} (spec : KeptByBuilding R depth)

include spec

theorem along_substituteWithin (σ : Substitution) (t : TypeId) :
    Along R (substituteWithin (depth + 1) σ t) := by
  rw [substituteWithin]
  split
  · exact .pure t
  refine .get_bind fun s => ?_
  dsimp only
  split
  · exact refl_of _ s
  · refine (spec.substitute σ _).bind (fun u => ?_) s
    split
    · exact .pure t
    · exact spec.array _ _
  · refine (spec.substitute σ _).bind (fun u => ?_) s
    split
    · exact .pure t
    · exact along_byRef hstep u
  · split
    · refine (Along.mapM (spec.substitute σ) _).bind
        (fun us => ?_) s
      split
      · exact .pure t
      · exact spec.construct _ _
    · exact refl_of _ s

theorem along_enterAbove (info : TypeInfo) (σ : Substitution) (t : TypeId) :
    Along R (enterAbove depth info σ t) := by
  refine (Along.option_mapM (spec.substitute σ) info.base).bind fun base => ?_
  refine (Along.mapM (spec.substitute σ) info.interfaces).bind fun interfaces => ?_
  exact (Along.modify fun s => hstep _ _ (.above s t base interfaces)).bind fun _ => .pure t

theorem along_constructWithin (d : TypeId) (args : List TypeId) :
    Along R (constructWithin (depth + 1) d args) := by
  intro s
  obtain ⟨⟨e, hrun⟩, -⟩ | ⟨⟨hdef, -⟩, ⟨t, hrun, -⟩ | ⟨-, -, hrun⟩⟩ :=
    constructWithin_cases depth d args s
  · rw [storeAfter_of_error hrun]
    exact refl_of _ s
  · rw [storeAfter_of_ok hrun]
    exact refl_of _ s
  · rw [storeAfter_congr hrun]
    exact trans_of R (hstep _ _ (.constructed s args hdef))
      (along_enterAbove hstep spec (s.info d) (.forType d args) s.next _)

theorem along_arrayOfWithin (e : TypeId) (rank : Nat) :
    Along R (arrayOfWithin (depth + 1) e rank) := by
  rw [arrayOfWithin]
  refine .get_bind fun s => ?_
  dsimp only
  split
  · exact refl_of _ s
  refine (?_ : Along R _) s
  split
  · exact (spec.construct _ _).bind fun u => along_arrayOrAdd hstep e rank [u]
  · exact along_arrayOrAdd hstep e rank []

end Step

theorem keptByBuilding (depth : Nat) : KeptByBuilding R depth := by
  induction depth with
  | zero =>
    refine ⟨fun σ t => ?_, fun d args => ?_, fun e rank => ?_⟩
    · rw [substituteWithin]
      exact .get_bind (refl_of _)
    · rw [constructWithin]
      exact .get_bind (refl_of _)
    · rw [arrayOfWithin]
      exact .get_bind (refl_of _)
  | succ depth spec =>
    exact ⟨along_substituteWithin hstep spec, along_constructWithin hstep spec,
      along_arrayOfWithin hstep spec⟩

/-- **What each step keeps is kept by a substitution.** -/
theorem along_substitute (σ : Substitution) (t : TypeId) : Along R (substitute σ t) :=
  .get_bind fun s => (keptByBuilding hstep _).substitute σ t s

/-- **What each step keeps is kept by a construction.** -/
theorem along_construct (d : TypeId) (args : List TypeId) : Along R (construct d args) :=
  .get_bind fun s => (keptByBuilding hstep _).construct d args s

theorem along_arrayOf (e : TypeId) (rank : Nat) : Along R (arrayOf e rank) :=
  .get_bind fun s => (keptByBuilding hstep _).array e rank s

end Construction

/-! ### Tables -/

/-- **Two stores have the same tables.** -/
structure Store.SameTables (s s' : Store) : Prop where
  /-- The same names. -/
  names_eq : s'.names = s.names
  /-- The same parameters that were made again. -/
  rebound_eq : s'.rebound = s.rebound
  /-- The same number of methods. -/
  nextMethod_eq : s'.nextMethod = s.nextMethod

namespace Store.SameTables

instance : Std.Refl SameTables :=
  ⟨fun _ => ⟨rfl, rfl, rfl⟩⟩

instance : IsTrans Store SameTables :=
  ⟨fun _ _ _ h h' => ⟨h'.names_eq.trans h.names_eq, h'.rebound_eq.trans h.rebound_eq,
    h'.nextMethod_eq.trans h.nextMethod_eq⟩⟩

theorem of_step {s s' : Store} (h : s.BuildStep s') : s.SameTables s' := by
  cases h <;> exact ⟨rfl, rfl, rfl⟩

theorem edit (t : TypeId) (change : TypeInfo → TypeInfo) :
    Along SameTables (modify fun s => s.edit t change : TypeM PUnit) :=
  fun _ => ⟨rfl, rfl, rfl⟩

theorem addParameters (owner : Owner) (position : Nat) (names : List String) (s : Store) :
    s.SameTables (addParameters owner position names s).2 := by
  induction names generalizing position s with
  | nil => exact refl_of _ s
  | cons name names ih =>
    exact trans_of SameTables (⟨rfl, rfl, rfl⟩ : s.SameTables (s.add _).2) (ih _ _)

end Store.SameTables

theorem sameTables_byRef (e : TypeId) : Along Store.SameTables (byRef e) :=
  along_byRef (fun _ _ => Store.SameTables.of_step) e

theorem sameTables_substitute (σ : Substitution) (t : TypeId) :
    Along Store.SameTables (substitute σ t) :=
  along_substitute (fun _ _ => Store.SameTables.of_step) σ t

theorem sameTables_construct (d : TypeId) (args : List TypeId) :
    Along Store.SameTables (construct d args) :=
  along_construct (fun _ _ => Store.SameTables.of_step) d args

theorem sameTables_arrayOf (e : TypeId) (rank : Nat) :
    Along Store.SameTables (arrayOf e rank) :=
  along_arrayOf (fun _ _ => Store.SameTables.of_step) e rank

/-! ### Method parameters that are made again -/

/-- **The tables of a store are kept**: names stay, no request for method parameters is answered
otherwise than before, and no method is forgotten. -/
structure Store.KeepsTables (s s' : Store) : Prop where
  /-- Names stay. -/
  names_eq : s'.names = s.names
  /-- A request that was answered has the same answer. -/
  lookup_rebound : ∀ {key found}, s.rebound.lookup key = some found →
    s'.rebound.lookup key = some found
  /-- No method is forgotten. -/
  nextMethod_le : s.nextMethod ≤ s'.nextMethod

namespace Store.KeepsTables

instance : Std.Refl KeepsTables :=
  ⟨fun _ => ⟨rfl, id, Nat.le_refl _⟩⟩

instance : IsTrans Store KeepsTables :=
  ⟨fun _ _ _ h h' => ⟨h'.names_eq.trans h.names_eq,
    fun hk => h'.lookup_rebound (h.lookup_rebound hk),
    Nat.le_trans h.nextMethod_le h'.nextMethod_le⟩⟩

theorem of_same {s s' : Store} (h : s.SameTables s') : s.KeepsTables s' :=
  ⟨h.names_eq, fun hk => by rw [h.rebound_eq]; exact hk, Nat.le_of_eq h.nextMethod_eq.symm⟩

end Store.KeepsTables

theorem sameTables_copyConstraints (σ : Substitution) (old new : TypeId) :
    Along Store.SameTables (copyConstraints σ old new) := by
  refine .get_bind fun s => ?_
  split
  · exact refl_of _ s
  · refine (Along.mapM (sameTables_substitute σ) _).bind
      (fun constraints => ?_) s
    exact .modify fun s => ⟨rfl, rfl, rfl⟩

section Rebind

variable {m : MethodToken} {ps : List TypeId} {σ : Substitution} {s s' : Store}
  {found : MethodToken × List TypeId}

/-- A request that was answered before has the same answer. -/
theorem rebind_of_lookup (h : s.rebound.lookup ⟨m, σ.typeOwner, σ.typeArguments⟩ = some found) :
    rebindMethodParameters m ps σ s = .ok found s := by
  rw [rebindMethodParameters, get_bind_apply, h]
  rfl

/-- The parameters that answer a request, without their constraints, and the store with them. -/
def Store.copies (s : Store) (ps : List TypeId) : List TypeId × Store :=
  s.newMethod.2.defineMethodParameters s.newMethod.1 (ps.map fun p => (s.info p).name)

/-- Copy the constraints of all parameters. -/
def copyAllConstraints (m : MethodToken) (ps copies : List TypeId) (σ : Substitution) :
    TypeM Unit :=
  (ps.zip copies).forM fun entry =>
    copyConstraints (σ.typePart.withMethod m copies) entry.1 entry.2

/-- A request that was not answered is answered by copies, once their constraints are there. -/
theorem rebind_of_lookup_eq_none (h : s.rebound.lookup ⟨m, σ.typeOwner, σ.typeArguments⟩ = none) :
    rebindMethodParameters m ps σ s = (do
      copyAllConstraints m ps (s.copies ps).1 σ
      modify fun s' => { s' with rebound := (⟨m, σ.typeOwner, σ.typeArguments⟩,
        (s.newMethod.1, (s.copies ps).1)) :: s'.rebound }
      return (s.newMethod.1, (s.copies ps).1) : TypeM _) (s.copies ps).2 := by
  rw [rebindMethodParameters, get_bind_apply, h]
  rfl

theorem sameTables_copyAllConstraints (copies : List TypeId) :
    Along Store.SameTables (copyAllConstraints m ps copies σ) :=
  .forM (fun _ => sameTables_copyConstraints _ _ _) _

/-- **The answer to a request is in the table.** -/
theorem lookup_of_rebind (h : rebindMethodParameters m ps σ s = .ok found s') :
    s'.rebound.lookup ⟨m, σ.typeOwner, σ.typeArguments⟩ = some found := by
  cases hlookup : s.rebound.lookup ⟨m, σ.typeOwner, σ.typeArguments⟩ with
  | some found' =>
    rw [rebind_of_lookup hlookup] at h
    cases h
    exact hlookup
  | none =>
    rw [rebind_of_lookup_eq_none hlookup] at h
    cases hloop : copyAllConstraints m ps (s.copies ps).1 σ (s.copies ps).2 with
    | error e s₁ =>
      rw [bind_apply_of_error hloop] at h
      cases h
    | ok u s₁ =>
      rw [bind_apply_of_ok hloop] at h
      cases h
      exact List.lookup_cons_self

end Rebind

/-- The tables after parameters were made again: perhaps one more method, and with it perhaps one
more answer, to a request that had none. -/
theorem tables_rebind (m : MethodToken) (ps : List TypeId) (σ : Substitution) (s : Store) :
    (storeAfter (rebindMethodParameters m ps σ) s).names = s.names ∧
      s.nextMethod ≤ (storeAfter (rebindMethodParameters m ps σ) s).nextMethod ∧
      ((storeAfter (rebindMethodParameters m ps σ) s).rebound = s.rebound ∨
        s.rebound.lookup ⟨m, σ.typeOwner, σ.typeArguments⟩ = none ∧
        s.nextMethod < (storeAfter (rebindMethodParameters m ps σ) s).nextMethod ∧
        (storeAfter (rebindMethodParameters m ps σ) s).rebound =
          (⟨m, σ.typeOwner, σ.typeArguments⟩, (s.newMethod.1, (s.copies ps).1)) :: s.rebound) := by
  cases hlookup : s.rebound.lookup ⟨m, σ.typeOwner, σ.typeArguments⟩ with
  | some found =>
    rw [storeAfter_of_ok (rebind_of_lookup hlookup)]
    exact ⟨rfl, Nat.le_refl _, .inl rfl⟩
  | none =>
    have hrun : rebindMethodParameters m ps σ s = _ := rebind_of_lookup_eq_none hlookup
    have hsame : s.newMethod.2.SameTables
        (storeAfter (copyAllConstraints m ps (s.copies ps).1 σ) (s.copies ps).2) :=
      trans_of _ (.addParameters (.method s.newMethod.1) 0 _ s.newMethod.2)
        (sameTables_copyAllConstraints _ (s.copies ps).2)
    have hlt : s.nextMethod < (storeAfter (copyAllConstraints m ps (s.copies ps).1 σ)
        (s.copies ps).2).nextMethod := by
      rw [hsame.nextMethod_eq]
      exact Nat.lt_succ_self _
    cases hloop : copyAllConstraints m ps (s.copies ps).1 σ (s.copies ps).2 with
    | error e s' =>
      rw [storeAfter_of_error hloop] at hsame hlt
      rw [bind_apply_of_error hloop] at hrun
      rw [storeAfter_of_error hrun]
      exact ⟨hsame.names_eq, Nat.le_of_lt hlt, .inl hsame.rebound_eq⟩
    | ok u s' =>
      rw [storeAfter_of_ok hloop] at hsame hlt
      rw [bind_apply_of_ok hloop] at hrun
      have hafter : storeAfter (rebindMethodParameters m ps σ) s = { s' with
          rebound := (⟨m, σ.typeOwner, σ.typeArguments⟩, (s.newMethod.1, (s.copies ps).1)) ::
            s'.rebound } := by
        rw [storeAfter, hrun]
        rfl
      rw [hafter]
      exact ⟨hsame.names_eq, Nat.le_of_lt hlt, .inr ⟨rfl, hlt, congrArg _ hsame.rebound_eq⟩⟩

theorem keepsTables_rebind (m : MethodToken) (ps : List TypeId) (σ : Substitution) :
    Along Store.KeepsTables (rebindMethodParameters m ps σ) := by
  intro s
  obtain ⟨hnames, hle, hrebound | ⟨hnone, -, hrebound⟩⟩ := tables_rebind m ps σ s
  · exact ⟨hnames, fun hk => by rw [hrebound]; exact hk, hle⟩
  · refine ⟨hnames, fun {key found} hk => ?_, hle⟩
    have hne : key ≠ ⟨m, σ.typeOwner, σ.typeArguments⟩ := by
      rintro rfl
      rw [hnone] at hk
      cases hk
    rw [hrebound, List.lookup_cons, beq_false_of_ne hne]
    exact hk

end CallSite
