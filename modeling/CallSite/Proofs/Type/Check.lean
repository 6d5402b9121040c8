import CallSite.Proofs.Type.Orderly

/-!
# Runs that can be checked

For one run of operations it can be computed that each of them is allowed where it is carried out.
`Operation.isValid` and `Operation.isOrderly` are the tests for one operation, `Store.checkRun`
tests one operation after another, and a run that passes leads to a reachable store
(`Store.reachable_of_checkRun`).
-/

namespace CallSite

namespace Store

variable {s : Store}

/-! ### The parameters that a type mentions -/

/-- The parameters that a type mentions, with a bound on the depth of the search. -/
def mentionedWithin (s : Store) : Nat → TypeId → List TypeId
  | 0, _ => []
  | depth + 1, t =>
    match s.form t with
    | .parameter _ _ => [t]
    | form => form.parts.flatMap (s.mentionedWithin depth)

/-- The parameters that a type mentions. -/
def mentioned (s : Store) (t : TypeId) : List TypeId :=
  s.mentionedWithin (s.size + 1) t

theorem mem_mentionedWithin_iff (hs : s.Formed) {depth : Nat} {t q : TypeId}
    (hdepth : s.height t < depth) : q ∈ s.mentionedWithin depth t ↔ s.Mentions t q := by
  induction depth generalizing t with
  | zero => exact absurd hdepth (Nat.not_lt_zero _)
  | succ depth ih =>
    have hpart : ∀ u ∈ s.parts t, (q ∈ s.mentionedWithin depth u ↔ s.Mentions u q) := fun u hu =>
      ih (Nat.lt_of_lt_of_le (hs.height_part hu) (Nat.le_of_lt_succ hdepth))
    rw [mentionedWithin]
    split
    case h_1 o k hf =>
      obtain ⟨p, hp, -⟩ := TypeInfo.form_eq_parameter_iff.mp hf
      rw [List.mem_singleton]
      refine ⟨?_, fun h => h.eq_of_parameter hp⟩
      rintro rfl
      exact .of_parameter hp
    case h_2 hne =>
      rw [mentions_iff_of_form_ne hne, List.mem_flatMap]
      exact exists_congr fun u => and_congr_right fun hu => hpart u hu

theorem mem_mentioned_iff (hs : s.Formed) {t q : TypeId} (ht : s.Holds t) :
    q ∈ s.mentioned t ↔ s.Mentions t q :=
  mem_mentionedWithin_iff hs (Nat.lt_succ_of_le (Nat.le_trans (s.height_le t) ht))

/-! ### One operation -/

/-- A type is held if the store is large enough. -/
theorem holds_of_size_eq {n : Nat} (hsize : s.size = n) {t : TypeId} (ht : t.index < n) :
    s.Holds t := by
  rw [← hsize] at ht
  exact ht

/-- The test for what may be set above a type. -/
def mayStandAbove (s : Store) (t u : TypeId) : Bool :=
  (s.mentioned u).all (· ∈ s.mentioned t) && !(s.info u).isParameter &&
    (s.info t).definition.isNone && s.types.all fun info => info.definition ≠ some t

theorem MayStandAbove.of_check (hs : s.Formed) {t u : TypeId} (ht : s.Holds t) (hu : s.Holds u)
    (h : s.mayStandAbove t u) : s.MayStandAbove t u := by
  simp only [mayStandAbove, Bool.and_eq_true, List.all_eq_true, decide_eq_true_eq,
    Bool.not_eq_true', Option.isNone_iff_eq_none, Array.all_eq_true] at h
  obtain ⟨⟨⟨hmentions, hparameter⟩, hnone⟩, hunused⟩ := h
  refine ⟨fun q hq => ?_, fun o k hf => ?_, hnone, fun x hx => ?_⟩
  · exact (mem_mentioned_iff hs ht).mp (hmentions q ((mem_mentioned_iff hs hu).mpr hq))
  · obtain ⟨p, hp, -⟩ := TypeInfo.form_eq_parameter_iff.mp hf
    exact absurd hp (TypeInfo.shape_ne_parameter hparameter)
  · by_cases hheld : s.Holds x
    · refine hunused x.index hheld ?_
      rw [← hx, info, info?, Array.getElem?_eq_getElem hheld, Option.getD_some]
    · rw [info_of_not_holds hheld] at hx
      cases hx

end Store

/-- The test for what a substitution puts in place of parameters. -/
def Substitution.isHeldBy (σ : Substitution) (s : Store) : Bool :=
  (σ.typeArguments ++ σ.methodArguments).all fun t => t.index < s.size

theorem Substitution.HeldBy.of_check {σ : Substitution} {s : Store} (h : σ.isHeldBy s) :
    σ.HeldBy s := by
  intro p u hu
  have hmem : u ∈ σ.typeArguments ++ σ.methodArguments := by
    unfold lookup at hu
    split at hu <;> split at hu
    · exact List.mem_append_left _ (List.mem_of_getElem? hu)
    · cases hu
    · exact List.mem_append_right _ (List.mem_of_getElem? hu)
    · cases hu
  have hlt : u.index < s.size := by simpa using List.all_eq_true.mp h u hmem
  exact hlt

/-- The test whether a computation ends without running into a hierarchy that expands without
end. -/
def isFinite {α : Type} (x : TypeM α) (s : Store) : Bool :=
  match x s with
  | .error (.endless _) _ => false
  | _ => true

theorem not_isEndless_of_isFinite {α : Type} {x : TypeM α} {s s' : Store} {e : TypeError}
    (h : isFinite x s) (hx : x s = .error e s') : ¬ e.IsEndless := by
  rw [isFinite, hx] at h
  cases e with
  | endless _ => cases h
  | _ => exact id

/-- The test whether a computation succeeds with a result and a store that pass a test. -/
def succeedsWith {ε α : Type} (x : EStateM ε Store α) (s : Store) (test : α → Store → Bool) :
    Bool :=
  match x s with
  | .ok a s' => test a s'
  | .error _ _ => false

theorem exists_of_succeedsWith {ε α : Type} {x : EStateM ε Store α} {s : Store}
    {test : α → Store → Bool} (h : succeedsWith x s test) : ∃ a s', x s = .ok a s' ∧ test a s' := by
  unfold succeedsWith at h
  cases hx : x s with
  | ok a s' =>
    rw [hx] at h
    exact ⟨a, s', rfl, h⟩
  | error e s' =>
    rw [hx] at h
    cases h

/-- The test whether a computation fails with an error. -/
def failsWith {ε α : Type} [DecidableEq ε] (x : EStateM ε Store α) (s : Store) (e : ε) : Bool :=
  match x s with
  | .ok _ _ => false
  | .error e' _ => e' = e

theorem exists_of_failsWith {ε α : Type} [DecidableEq ε] {x : EStateM ε Store α} {s : Store} {e : ε}
    (h : failsWith x s e) : ∃ s', x s = .error e s' := by
  unfold failsWith at h
  cases hx : x s with
  | ok a s' =>
    rw [hx] at h
    cases h
  | error e' s' =>
    rw [hx] at h
    obtain rfl := of_decide_eq_true h
    exact ⟨s', rfl⟩

namespace Operation

/-- The test whether the types that an operation names are there. -/
def isValid (s : Store) : Operation → Bool
  | .define _ _ _ => true
  | .register _ t => t.index < s.size
  | .setBase t base => t.index < s.size && base.index < s.size
  | .addInterface t interface => t.index < s.size && interface.index < s.size
  | .setSealed t _ => t.index < s.size
  | .setDefaultConstructor t _ => t.index < s.size
  | .constrain t _ constraints => t.index < s.size && constraints.all fun c => c.index < s.size
  | .newMethod => true
  | .methodParameters method _ => method.number < s.nextMethod
  | .rebind method parameters σ =>
    method.number < s.nextMethod && (parameters.all fun t => t.index < s.size) && σ.isHeldBy s
  | .construct definition arguments =>
    definition.index < s.size && arguments.all fun a => a.index < s.size
  | .arrayOf element _ => element.index < s.size
  | .byRef element => element.index < s.size
  | .nullableOf t => t.index < s.size
  | .substitute σ t => σ.isHeldBy s && t.index < s.size

theorem Valid.of_check {s : Store} {op : Operation} (h : op.isValid s) : op.Valid s := by
  cases op with
  | rebind method parameters σ =>
    simp only [isValid, Bool.and_eq_true, decide_eq_true_eq, List.all_eq_true] at h
    exact ⟨h.1.1, h.1.2, .of_check h.2⟩
  | substitute σ t =>
    simp only [isValid, Bool.and_eq_true, decide_eq_true_eq] at h
    exact ⟨.of_check h.1, h.2⟩
  | define _ _ _ | newMethod => trivial
  | _ => simpa [isValid, Valid, Store.Holds] using h

/-- The test whether an operation is orderly. -/
def isOrderly (s : Store) (op : Operation) : Bool :=
  isFinite op.run s && match op.placed? with
    | some (t, u) => s.mayStandAbove t u
    | none => true

/-- What an operation sets above a type is there. -/
theorem Valid.holds_placed {s : Store} {op : Operation} (h : op.Valid s) {t u : TypeId}
    (hplaced : op.placed? = some (t, u)) : s.Holds t ∧ s.Holds u := by
  cases op with
  | setBase t base | addInterface t interface =>
    cases hplaced
    exact h
  | _ => cases hplaced

theorem Orderly.of_check {s : Store} {op : Operation} (hs : s.Formed) (hvalid : op.Valid s)
    (h : op.isOrderly s) : op.Orderly s := by
  obtain ⟨hfinite, hplaced⟩ := Bool.and_eq_true_iff.mp h
  refine ⟨fun e s' hrun => not_isEndless_of_isFinite hfinite hrun, fun t u htu => ?_⟩
  rw [htu] at hplaced
  exact .of_check hs (hvalid.holds_placed htu).1 (hvalid.holds_placed htu).2 hplaced

/-- The test whether an operation keeps hierarchies scoped. -/
def isScoped (s : Store) (op : Operation) : Bool :=
  match op.placed? with
  | some (t, u) => (s.mentioned u).all (· ∈ s.mentioned t)
  | none => true

theorem Scoped.of_check {s : Store} {op : Operation} (hs : s.Formed) (hvalid : op.Valid s)
    (h : op.isScoped s) : op.Scoped s := by
  have hscope : ∀ {t u}, op.placed? = some (t, u) → ∀ q, s.Mentions u q → s.Mentions t q := by
    intro t u hplaced q hq
    obtain ⟨ht, hu⟩ := hvalid.holds_placed hplaced
    rw [isScoped, hplaced] at h
    have hmem := List.all_eq_true.mp h q ((Store.mem_mentioned_iff hs hu).mpr hq)
    exact (Store.mem_mentioned_iff hs ht).mp (of_decide_eq_true hmem)
  cases op with
  | setBase t base | addInterface t interface => exact hscope rfl
  | _ => trivial

/-- The test whether a row that an operation sets a hierarchy for passes a test. -/
def placesOn (test : Form → Bool) (s : Store) (op : Operation) : Bool :=
  match op.placed? with
  | some (t, _) => test (s.form t)
  | none => true

theorem of_placesOn {test : Form → Bool} {s : Store} {op : Operation} (h : op.placesOn test s)
    {t u : TypeId} (hplaced : op.placed? = some (t, u)) : test (s.form t) := by
  rw [placesOn, hplaced] at h
  exact h

end Operation

/-! ### One operation after another -/

namespace Store

/-- Carry operations out, one after another. -/
def afterAll (s : Store) (ops : List Operation) : Store :=
  ops.foldl (fun s op => op.after s) s

/-- Every operation of a run is valid and passes a test. -/
def checkRun (test : Store → Operation → Bool) : Store → List Operation → Bool
  | _, [] => true
  | s, op :: ops => op.isValid s && test s op && checkRun test (op.after s) ops

/-- **A run that was checked leads to a reachable store**, if the test is enough for what is allowed
there. -/
theorem Reachable.of_checkRun {allowed : Store → Operation → Prop} (test : Store → Operation → Bool)
    (htest : ∀ s op, s.WellFormed → op.Valid s → test s op → allowed s op) {s : Store}
    (h : s.Reachable allowed) {ops : List Operation} (hrun : checkRun test s ops) :
    (s.afterAll ops).Reachable allowed := by
  induction ops generalizing s with
  | nil => exact h
  | cons op ops ih =>
    simp only [checkRun, Bool.and_eq_true] at hrun
    obtain ⟨⟨hvalid, hpass⟩, hrest⟩ := hrun
    have hvalid := Operation.Valid.of_check hvalid
    exact ih (.step h hvalid (htest s op h.wellFormed hvalid hpass)) hrest

/-- A run in which every operation keeps hierarchies scoped. -/
theorem Reachable.of_scopedRun {ops : List Operation}
    (h : checkRun (fun s op => op.isScoped s) Store.initial ops) :
    (Store.initial.afterAll ops).Reachable fun s op => op.Scoped s :=
  .of_checkRun _ (fun _ _ hs hvalid hpass => .of_check hs.toFormed hvalid hpass) .initial h

/-- A run in which every operation is orderly and leaves constructed types, arrays and references
alone. -/
theorem Reachable.of_orderlyRun {ops : List Operation} (h : checkRun (fun s op =>
      op.isOrderly s && op.placesOn (fun f => !decide f.IsMade) s) Store.initial ops) :
    (Store.initial.afterAll ops).Reachable fun s op => op.Orderly s ∧ op.LeavesMade s := by
  refine .of_checkRun _ (fun s op hs hvalid hpass => ?_) .initial h
  obtain ⟨horderly, hplaces⟩ := Bool.and_eq_true_iff.mp hpass
  exact ⟨.of_check hs.toFormed hvalid horderly, fun t u hplaced => by
    simpa using op.of_placesOn hplaces hplaced⟩

end Store

end CallSite
