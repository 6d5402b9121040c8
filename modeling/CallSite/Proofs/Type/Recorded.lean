import CallSite.Proofs.Type.Reachable

/-!
# What is recorded of methods

A store counts the methods that were met and records which method parameters were made again, for
which request. In every reachable store these records are right (`Store.Recorded`): a method with
parameters was met before, a request was answered by the parameters of its own new method, in order,
and what the request put in place of the parameters of a type is older than the new method, so it
mentions none of its parameters.

Types that are made from types touch none of this, because no parameter is among what they add
(`Store.KeepsParameters`). What remains are the operations that meet a method or make parameters.

* `Store.KeepsParameters` – a store grows or changes without a new parameter.
* `Store.AvoidsMethod` – a type mentions no parameter of a method.
* `Store.KeepsRecords` – what types are made from types by does to the records.
* `Store.Recorded.rebind` – the records stay right when method parameters are made again.
* `Store.Reachable.recorded` – they are right in every reachable store.
* `CallSite.answer_of_rebind` – the answer to a request is an old one, or belongs to a method that
  was not met before.
-/

namespace CallSite

namespace Store

variable {s s' s'' : Store}

/-! ### No parameter is made -/

/-- Definitions are no parameters. -/
def PlainDefinitions (s : Store) : Prop :=
  ∀ {d}, (s.info d).isDefinition → (s.info d).isParameter = false

theorem Formed.plainDefinitions (hs : s.Formed) : s.PlainDefinitions := by
  intro d hd
  obtain ⟨shape, hf⟩ := hs.form_of_isDefinition hd
  exact (TypeInfo.plain_of_form_eq_named hf).1

/-- **No parameter is made**: the forms of types stay, and what is a parameter was there before. -/
structure KeepsParameters (s s' : Store) : Prop where
  /-- No type is lost. -/
  holds : ∀ {t}, s.Holds t → s'.Holds t
  /-- Forms stay. -/
  form_eq : ∀ {t}, s.Holds t → s'.form t = s.form t
  /-- Definitions are still no parameters. -/
  plain : s.PlainDefinitions → s'.PlainDefinitions
  /-- A parameter was there before. -/
  old : s.PlainDefinitions → ∀ {t}, (s'.info t).isParameter → s.Holds t

namespace KeepsParameters

/-- What is a parameter is held. -/
theorem holds_of_isParameter {t : TypeId} (h : (s.info t).isParameter) : s.Holds t := by
  refine not_not.mp fun hn => ?_
  rw [info_of_not_holds hn] at h
  cases h

instance : Std.Refl KeepsParameters :=
  ⟨fun _ => ⟨id, fun _ => rfl, id, fun _ {_} => holds_of_isParameter⟩⟩

instance : IsTrans Store KeepsParameters :=
  ⟨fun _ _ _ h h' => {
    holds ht := h'.holds (h.holds ht)
    form_eq ht := (h'.form_eq (h.holds ht)).trans (h.form_eq ht)
    plain hs := h'.plain (h.plain hs)
    old hs := fun {t} ht => by
      have hmid := h'.old (h.plain hs) ht
      rw [TypeInfo.isParameter_congr (h'.form_eq hmid)] at ht
      exact h.old hs ht }⟩

/-- A row is appended that is no parameter. -/
theorem add {row : TypeInfo} (hrow : s.PlainDefinitions → row.isParameter = false) :
    s.KeepsParameters (s.add row).2 where
  holds := (extends_add s row).holds
  form_eq := (extends_add s row).form_eq
  plain hs := fun {d} hd => by
    by_cases hnext : d = s.next
    · rw [hnext, info_add_next]
      exact hrow hs
    · rw [info_add s row hnext] at hd ⊢
      exact hs hd
  old hs := fun {t} ht => by
    by_cases hnext : t = s.next
    · rw [hnext, info_add_next, hrow hs] at ht
      cases ht
    · rw [info_add s row hnext] at ht
      exact holds_of_isParameter ht

/-- Rows change and keep their forms. -/
theorem of_sameForms (hsame : s.SameForms s') : s.KeepsParameters s' := by
  have hparam : ∀ t, (s'.info t).isParameter = (s.info t).isParameter := fun t =>
    TypeInfo.isParameter_congr (hsame.form_eq t)
  refine ⟨hsame.holds_iff.mpr, fun _ => hsame.form_eq _, fun hs {d} hd => ?_, fun _ {t} ht => ?_⟩
  · rw [hparam]
    rw [TypeInfo.isDefinition, TypeInfo.isGeneric, hsame.definition_eq, hsame.arguments_eq] at hd
    exact hs hd
  · rw [hparam] at ht
    exact holds_of_isParameter ht

theorem of_step (h : s.BuildStep s') : s.KeepsParameters s' := by
  cases h with
  | plain _ hrow => exact add fun _ => hrow
  | constructed args hdef => exact add fun hs => hs hdef
  | above t base interfaces => exact of_sameForms (sameForms_edit fun _ => ⟨rfl, rfl, rfl⟩)

end KeepsParameters

end Store

theorem keepsParameters_substitute (σ : Substitution) (t : TypeId) :
    Along Store.KeepsParameters (substitute σ t) :=
  along_substitute (fun _ _ => Store.KeepsParameters.of_step) σ t

theorem keepsParameters_copyAllConstraints (m : MethodToken) (ps copies : List TypeId)
    (σ : Substitution) : Along Store.KeepsParameters (copyAllConstraints m ps copies σ) := by
  refine .forM (fun entry => .get_bind fun s => ?_) _
  split
  · exact refl_of _ s
  · refine (Along.mapM (keepsParameters_substitute _) _).bind (fun constraints => ?_) s
    exact .modify fun s => .of_sameForms (Store.sameForms_setConstraints s _ _ _)

namespace Store

variable {s s' : Store}

/-! ### Parameters that a type avoids -/

/-- **A type mentions no parameter of a method.** -/
def AvoidsMethod (s : Store) (m : MethodToken) (t : TypeId) : Prop :=
  ∀ q k, s.Mentions t q → s.form q ≠ .parameter (.method m) k

/-- What a held type mentions while forms stay it mentioned before. -/
theorem Mentions.of_form_eq (hs : s.Formed) (hform : ∀ {t}, s.Holds t → s'.form t = s.form t)
    {t q : TypeId} (ht : s.Holds t) (h : s'.Mentions t q) : s.Mentions t q := by
  induction h with
  | self hq => exact .self (hform ht ▸ hq)
  | part hu _ ih =>
    rw [parts, hform ht] at hu
    exact .part hu (ih (hs.holds_part hu))

/-- What a held type avoids it avoids while forms stay. -/
theorem AvoidsMethod.of_form_eq {m : MethodToken} {t : TypeId} (h : s.AvoidsMethod m t)
    (hs : s.Formed)
    (hform : ∀ {t}, s.Holds t → s'.form t = s.form t) (ht : s.Holds t) : s'.AvoidsMethod m t := by
  intro q k hq hf
  have hq := hq.of_form_eq hs hform ht
  rw [hform hq.holds] at hf
  exact h q k hq hf

theorem AvoidsMethod.of_extends {m : MethodToken} {t : TypeId} (h : s.AvoidsMethod m t)
    (hs : s.Formed) (hext : s.Extends s') (ht : s.Holds t) : s'.AvoidsMethod m t :=
  h.of_form_eq hs hext.form_eq ht

/-- A parameter that a type mentions avoids what the type avoids. -/
theorem AvoidsMethod.of_mentions {m : MethodToken} {t x : TypeId} (h : s.AvoidsMethod m t)
    (hx : s.Mentions t x) : s.AvoidsMethod m x := by
  intro q k hq hf
  obtain ⟨p, hp⟩ := hx.exists_parameter
  obtain rfl := hq.eq_of_parameter hp
  exact h q k hx hf

/-! ### What is recorded -/

/-- **What is recorded of methods is right.** -/
structure Recorded (s : Store) : Prop where
  /-- A method with parameters was met. -/
  method_lt : ∀ {t m k}, s.form t = .parameter (.method m) k → m.number < s.nextMethod
  /-- A request was answered by the parameters of the new method, in order. -/
  copies : ∀ {entry}, entry ∈ s.rebound → ∀ {k : Nat} {c : TypeId}, entry.2.2[k]? = some c →
    s.form c = .parameter (.method entry.2.1) k
  /-- What the request puts in place of the parameters of a type avoids the new method. -/
  older : ∀ {entry}, entry ∈ s.rebound → entry.1.typeOwner.isSome →
    ∀ a ∈ entry.1.typeArguments, s.Holds a ∧ s.AvoidsMethod entry.2.1 a

namespace Recorded

/-- Every type avoids a method that was not met. -/
theorem avoidsMethod (h : s.Recorded) {m : MethodToken} (hm : s.nextMethod ≤ m.number)
    (t : TypeId) : s.AvoidsMethod m t :=
  fun _ _ _ hf => absurd (h.method_lt hf) (Nat.not_lt_of_le hm)

/-- **The records stay right** while forms stay and no answer is added, if the methods of new
parameters were met. -/
theorem keep (h : s.Recorded) (hs : s.Formed) (hholds : ∀ {t}, s.Holds t → s'.Holds t)
    (hform : ∀ {t}, s.Holds t → s'.form t = s.form t) (hrebound : s'.rebound = s.rebound)
    (hnew : ∀ {t m k}, s'.form t = .parameter (.method m) k →
      s.form t = .parameter (.method m) k ∨ m.number < s'.nextMethod)
    (hle : s.nextMethod ≤ s'.nextMethod) : s'.Recorded where
  method_lt ht := (hnew ht).elim (fun ht => Nat.lt_of_lt_of_le (h.method_lt ht) hle) id
  copies hentry k c hc := by
    rw [hrebound] at hentry
    have hf := h.copies hentry hc
    rw [hform (holds_of_form_ne (by rw [hf]; exact Form.noConfusion)), hf]
  older hentry howner a ha := by
    rw [hrebound] at hentry
    obtain ⟨hheld, havoids⟩ := h.older hentry howner a ha
    exact ⟨hholds hheld, havoids.of_form_eq hs hform hheld⟩

/-- The records stay right where rows stay and no answer is added. -/
theorem of_types_eq (h : s.Recorded) (hs : s.Formed) (htypes : s'.types = s.types)
    (hrebound : s'.rebound = s.rebound) (hle : s.nextMethod ≤ s'.nextMethod) : s'.Recorded := by
  have hsame := sameForms_of_types_eq htypes
  exact h.keep hs hsame.holds_iff.mpr (fun _ => hsame.form_eq _) hrebound
    (fun ht => .inl (hsame.form_eq _ ▸ ht)) hle

/-- The records stay right where no parameter is made. -/
theorem of_keepsParameters (h : s.Recorded) (hs : s.Formed) (hkeeps : s.KeepsParameters s')
    (hsame : s.SameTables s') : s'.Recorded := by
  refine h.keep hs hkeeps.holds hkeeps.form_eq hsame.rebound_eq (fun {t m k} ht => .inl ?_)
    (Nat.le_of_eq hsame.nextMethod_eq.symm)
  obtain ⟨p, hp, -⟩ := TypeInfo.form_eq_parameter_iff.mp ht
  rw [← hkeeps.form_eq (hkeeps.old hs.plainDefinitions (TypeInfo.isParameter_iff.mpr ⟨p, hp⟩))]
  exact ht

/-- The records stay right when the parameters of a method that was met are made. -/
theorem addParameters (h : s.Recorded) (hs : s.Formed) {m : MethodToken}
    (hm : m.number < s.nextMethod) (position : Nat) (names : List String) :
    (addParameters (.method m) position names s).2.Recorded := by
  have hext := extends_addParameters (.method m) position names s
  have hsame := SameTables.addParameters (.method m) position names s
  refine h.keep hs hext.holds hext.form_eq hsame.rebound_eq (fun {t m' k} ht => ?_)
    (Nat.le_of_eq hsame.nextMethod_eq.symm)
  rcases holds_addParameters (holds_of_form_ne (by rw [ht]; exact Form.noConfusion)) with
    hheld | ⟨k', hk', rfl⟩
  · exact .inl (hext.form_eq hheld ▸ ht)
  · have hinfo := info_addParameters (.method m) position names s hk'
    rw [form, hinfo] at ht
    cases ht
    exact .inr (hsame.nextMethod_eq ▸ hm)

/-- **An answer is entered** that has the parameters of its method, to a request that is older than
the method. -/
theorem answer (h : s.Recorded) {key : RebindKey} {fresh : MethodToken} {copies : List TypeId}
    (hcopies : ∀ {k : Nat} {c : TypeId}, copies[k]? = some c →
      s.form c = .parameter (.method fresh) k)
    (holder : key.typeOwner.isSome → ∀ a ∈ key.typeArguments, s.Holds a ∧ s.AvoidsMethod fresh a) :
    ({ s with rebound := (key, (fresh, copies)) :: s.rebound } : Store).Recorded := by
  have hsame : s.SameForms { s with rebound := (key, (fresh, copies)) :: s.rebound } :=
    sameForms_of_types_eq rfl
  have havoids : ∀ {m a}, s.AvoidsMethod m a →
      ({ s with rebound := (key, (fresh, copies)) :: s.rebound } : Store).AvoidsMethod m a :=
    fun ha q k hq => ha q k (hsame.mentions_iff.mp hq)
  refine ⟨h.method_lt, fun hentry k c hc => ?_, fun hentry howner a ha => ?_⟩
  · rcases List.mem_cons.mp hentry with rfl | hentry
    · exact hcopies hc
    · exact h.copies hentry hc
  · rcases List.mem_cons.mp hentry with rfl | hentry
    · exact (holder howner a ha).imp_right havoids
    · exact (h.older hentry howner a ha).imp_right havoids

end Recorded

/-- **The records are kept**: nothing is added to them, and they stay right. -/
structure KeepsRecords (s s' : Store) : Prop extends s.SameTables s' where
  /-- What is recorded of methods stays right. -/
  recorded : s.Recorded → s'.Recorded

namespace KeepsRecords

theorem trans {s'' : Store} (h : s.KeepsRecords s') (h' : s'.KeepsRecords s'') :
    s.KeepsRecords s'' :=
  ⟨trans_of SameTables h.toSameTables h'.toSameTables, h'.recorded ∘ h.recorded⟩

/-- To make types from types keeps the records. -/
theorem of_along {ε α : Type} (hs : s.Formed) {x : EStateM ε Store α}
    (hx : ∀ {R : Store → Store → Prop} [Std.Refl R] [IsTrans Store R],
      (∀ s s', BuildStep s s' → R s s') → Along R x) : s.KeepsRecords (storeAfter x s) := by
  have hsame := hx (fun _ _ => SameTables.of_step) s
  exact ⟨hsame, fun h => h.of_keepsParameters hs (hx (fun _ _ => KeepsParameters.of_step) s) hsame⟩

end KeepsRecords

/-! ### Parameters that are made again -/

/-- The parameters that answer a request are as many as were asked for. -/
theorem length_copies (s : Store) (ps : List TypeId) : (s.copies ps).1.length = ps.length := by
  rw [copies, defineMethodParameters, length_addParameters, List.length_map]

/-- The copies that answer a request are the parameters of the method that is met next. -/
theorem form_copies (s : Store) (ps : List TypeId) {k : Nat} {c : TypeId}
    (hc : (s.copies ps).1[k]? = some c) :
    (s.copies ps).2.form c = .parameter (.method s.newMethod.1) k := by
  rw [copies, defineMethodParameters, getElem?_addParameters] at hc
  split at hc
  case isFalse => cases hc
  case isTrue hlt =>
    cases hc
    have hinfo := info_addParameters (.method s.newMethod.1) 0 _ s.newMethod.2 hlt
    rw [form, copies, defineMethodParameters, hinfo, Nat.zero_add]
    rfl

/-- The records stay right when the copies are made. -/
theorem Recorded.copied (h : s.Recorded) (hs : s.Formed) (ps : List TypeId) :
    (s.copies ps).2.Recorded := by
  have hnew : s.newMethod.2.Recorded := h.of_types_eq hs rfl rfl (Nat.le_succ _)
  have hsame : s.SameForms s.newMethod.2 := sameForms_of_types_eq rfl
  exact hnew.addParameters (hsame.formed hs) (Nat.lt_succ_self _) 0 _

/-- **The records stay right when parameters are made again.** -/
theorem Recorded.rebind (h : s.Recorded) (hs : s.WellFormed) (m : MethodToken) (ps : List TypeId)
    {σ : Substitution} (hσ : σ.typeOwner.isSome → ∀ a ∈ σ.typeArguments, s.Holds a) :
    (storeAfter (rebindMethodParameters m ps σ) s).Recorded := by
  cases hlookup : s.rebound.lookup ⟨m, σ.typeOwner, σ.typeArguments⟩ with
  | some found =>
    rw [storeAfter_of_ok (rebind_of_lookup hlookup)]
    exact h
  | none =>
    have hrun : rebindMethodParameters m ps σ s = _ := rebind_of_lookup_eq_none hlookup
    have hgrown := grown_copies hs ps
    have hkeeps := keepsParameters_copyAllConstraints m ps (s.copies ps).1 σ (s.copies ps).2
    have hloop := (h.copied hs.toFormed ps).of_keepsParameters hgrown.wellFormed.toFormed hkeeps
      (sameTables_copyAllConstraints (s.copies ps).1 (s.copies ps).2)
    cases hcopy : copyAllConstraints m ps (s.copies ps).1 σ (s.copies ps).2 with
    | error e s' =>
      rw [storeAfter_of_error hcopy] at hloop
      rw [bind_apply_of_error hcopy] at hrun
      rw [storeAfter_of_error hrun]
      exact hloop
    | ok u s' =>
      rw [storeAfter_of_ok hcopy] at hloop hkeeps
      rw [bind_apply_of_ok hcopy] at hrun
      have hafter : storeAfter (rebindMethodParameters m ps σ) s = { s' with
          rebound := (⟨m, σ.typeOwner, σ.typeArguments⟩, (s.newMethod.1, (s.copies ps).1)) ::
            s'.rebound } := by
        rw [storeAfter, hrun]
        rfl
      rw [hafter]
      refine hloop.answer (fun {k c} hc => ?_) fun howner a ha => ?_
      · have hf := form_copies s ps hc
        rw [hkeeps.form_eq (holds_of_form_ne (by rw [hf]; exact Form.noConfusion)), hf]
      · -- The new method was not met before, so what was there before avoids it.
        have hheld := hσ howner a ha
        refine ⟨hkeeps.holds (hgrown.holds hheld), ?_⟩
        refine (h.avoidsMethod (Nat.le_refl _) a).of_form_eq hs.toFormed (fun ht => ?_) hheld
        rw [hkeeps.form_eq (hgrown.holds ht), hgrown.form_eq ht]

end Store

/-- **The answer to a request** is an old one, or it belongs to a method that was not met before and
has one parameter for each that was asked for. -/
theorem answer_of_rebind {s s' : Store} {m fresh : MethodToken} {ps copies : List TypeId}
    {σ : Substitution} (h : rebindMethodParameters m ps σ s = .ok (fresh, copies) s') :
    s.rebound.lookup ⟨m, σ.typeOwner, σ.typeArguments⟩ = some (fresh, copies) ∨
      (s.nextMethod ≤ fresh.number ∧ copies.length = ps.length) := by
  cases hlookup : s.rebound.lookup ⟨m, σ.typeOwner, σ.typeArguments⟩ with
  | some found =>
    rw [rebind_of_lookup hlookup] at h
    cases h
    exact .inl rfl
  | none =>
    rw [rebind_of_lookup_eq_none hlookup] at h
    obtain ⟨u, s₁, -, h⟩ := exists_of_bind_eq_ok h
    cases h
    exact .inr ⟨Nat.le_refl _, s.length_copies ps⟩

/-! ### Reachable stores -/

namespace Operation

variable {op : Operation} {s : Store}

/-- What types are made from types by keeps the records. -/
theorem recorded_of_along (h : s.Recorded) (hs : s.Formed) {α : Type} {x : TypeM α}
    (hx : ∀ {R : Store → Store → Prop} [Std.Refl R] [IsTrans Store R],
      (∀ s s', Store.BuildStep s s' → R s s') → Along R x) :
    (storeAfter (do let _ ← x) s).Recorded :=
  (Store.KeepsRecords.of_along hs fun hstep => (hx hstep).bind fun _ => .pure _).recorded h

/-- A row that changes and keeps its form keeps the records. -/
theorem recorded_edit (h : s.Recorded) (hs : s.Formed) {t : TypeId} {change : TypeInfo → TypeInfo}
    (hsame : s.SameForms (s.edit t change)) : (s.edit t change).Recorded :=
  h.of_keepsParameters hs (.of_sameForms hsame) ⟨rfl, rfl, rfl⟩

/-- A definition keeps the records: its parameters belong to no method. -/
theorem recorded_define (h : s.Recorded) (hs : s.Formed) (name : String) (kind : DefinitionKind)
    (names : List String) : (s.define name kind names).2.Recorded := by
  have hext := Store.extends_define s name kind names
  have hsame := Store.SameTables.addParameters (.type s.next) 0 names
    (s.add (Store.definitionInfo name kind)).2
  refine h.keep hs hext.holds hext.form_eq hsame.rebound_eq (fun {t m k} ht => .inl ?_)
    (Nat.le_of_eq hsame.nextMethod_eq.symm)
  rcases Store.form_define_cases s name kind names t with ⟨-, hf⟩ | ⟨-, shape, hf⟩ | ⟨k', -, hf⟩
  · exact hf ▸ ht
  · exact absurd (hf.symm.trans ht) Form.noConfusion
  · cases hf.symm.trans ht

/-- **Every operation keeps the records.** -/
theorem recorded_after (h : s.Recorded) (hs : s.WellFormed) (hvalid : op.Valid s) :
    (op.after s).Recorded := by
  have hf := hs.toFormed
  rw [after_eq_storeAfter]
  cases op with
  | define name kind names => exact recorded_define h hf name kind names
  | register name t => exact h.of_types_eq hf rfl rfl (Nat.le_refl _)
  | setBase t base => exact recorded_edit h hf (Store.sameForms_edit fun _ => ⟨rfl, rfl, rfl⟩)
  | addInterface t interface =>
    refine recorded_edit h hf (Store.sameForms_edit fun info => ?_)
    split <;> exact ⟨rfl, rfl, rfl⟩
  | setSealed t value => exact recorded_edit h hf (Store.sameForms_edit fun _ => ⟨rfl, rfl, rfl⟩)
  | setDefaultConstructor t value =>
    exact recorded_edit h hf (Store.sameForms_edit fun _ => ⟨rfl, rfl, rfl⟩)
  | constrain t flags constraints =>
    rw [← after_eq_storeAfter]
    rcases after_constrain t flags constraints s with hafter | hafter <;> rw [hafter]
    · exact recorded_edit h hf (Store.sameForms_setConstraints s t flags constraints)
    · exact h
  | newMethod => exact h.of_types_eq hf rfl rfl (Nat.le_succ _)
  | methodParameters m names => exact h.addParameters hf hvalid 0 names
  | rebind m ps σ =>
    have hheld : σ.typeOwner.isSome → ∀ a ∈ σ.typeArguments, s.Holds a := by
      intro howner a ha
      obtain ⟨d, hd⟩ := Option.isSome_iff_exists.mp howner
      obtain ⟨k, hk⟩ := List.mem_iff_getElem?.mp ha
      refine hvalid.2.2 { owner := .type d, position := k } a ?_
      rw [Substitution.lookup_of_type rfl, if_pos hd]
      exact hk
    rw [← after_eq_storeAfter, after_rebind]
    exact h.rebind hs m ps hheld
  | construct d args => exact recorded_of_along h hf fun hstep => along_construct hstep d args
  | arrayOf e rank => exact recorded_of_along h hf fun hstep => along_arrayOf hstep e rank
  | byRef e => exact recorded_of_along h hf fun hstep => along_byRef hstep e
  | nullableOf t => exact recorded_of_along h hf fun hstep => along_construct hstep _ [t]
  | substitute σ t => exact recorded_of_along h hf fun hstep => along_substitute hstep σ t

end Operation

namespace Store

/-- The first store has the parameters of definitions only. -/
theorem owner_initial {t : TypeId} {p : GenericParameter}
    (hp : (initial.info t).parameter? = some p) : ∃ d, p.owner = .type d := by
  have hparam : ∀ i < 27, ((initial.info ⟨i⟩).parameter?.all fun p =>
      decide (p.owner ∈ (List.range 27).map fun d => .type ⟨d⟩)) = true := by decide +kernel
  have ht : initial.Holds t := KeepsParameters.holds_of_isParameter <|
    TypeInfo.isParameter_iff.mpr ⟨p, TypeInfo.parameter?_eq_some_iff.mp hp⟩
  rw [Holds, size_initial] at ht
  have howner := hparam t.index ht
  generalize initial.info ⟨t.index⟩ = info at howner hp
  rw [hp, Option.all_some, decide_eq_true_eq, List.mem_map] at howner
  obtain ⟨d, -, hd⟩ := howner
  exact ⟨_, hd.symm⟩

theorem recorded_initial : initial.Recorded := by
  have hrebound : initial.rebound = [] := by decide +kernel
  refine ⟨fun {t m k} ht => ?_, fun hentry => ?_, fun hentry => ?_⟩
  · obtain ⟨p, hp, howner, -⟩ := TypeInfo.form_eq_parameter_iff.mp ht
    obtain ⟨d, hd⟩ := owner_initial (TypeInfo.parameter?_eq_some_iff.mpr hp)
    cases hd.symm.trans howner
  · rw [hrebound] at hentry
    cases hentry
  · rw [hrebound] at hentry
    cases hentry

/-- **In every reachable store the records are right.** -/
theorem Reachable.recorded {allowed : Store → Operation → Prop} {s : Store}
    (h : s.Reachable allowed) : s.Recorded := by
  induction h with
  | initial => exact recorded_initial
  | step hreach hvalid _ ih => exact Operation.recorded_after ih hreach.wellFormed hvalid

end Store

end CallSite
