import CallSite.Proofs.Type.Rebind
import Mathlib.Data.List.Chain
import Mathlib.Logic.Relation

/-!
# Hierarchies that end

To construct a type is to construct what stands above it, for which further types may be needed, and
nothing in the code says that this comes to an end: with the base `A<A<T>>` above `A<T>` it does
not. What goes wrong is seen in the store. While a construction runs, the types that it is nested in
have been entered and each of them is needed by the one before (`Store.Needs`), so a nesting is a
chain of different types. **Hierarchies end** (`Store.Ends`) where no such chain has as many types
as there are numbers for types.

* `Store.Path` – the types that a construction is nested in.
* `endSpec` – where hierarchies end, the three constructions succeed, by one induction on the bound
  of their nesting. A path that has room for `n` more types asks for `n` times what lies between two
  constructions.
* `construct_succeeds`, `rebind_succeeds` – so types are constructed, and method parameters are made
  again.
-/

namespace CallSite

/-! ### Computations that succeed -/

/-- The computation succeeds. -/
def Succeeds {ε α : Type} (x : EStateM ε Store α) (s : Store) : Prop :=
  ∃ a s', x s = .ok a s'

/-- **The computation succeeds and the store grows.** -/
def Runs {ε α : Type} (x : EStateM ε Store α) (s : Store) : Prop :=
  ∃ a s', x s = .ok a s' ∧ s.Grown s'

namespace Succeeds

variable {ε α β : Type} {x : EStateM ε Store α} {s : Store}

theorem of_run_eq {y : EStateM ε Store α} {s₁ : Store} (hrun : x s = y s₁) (h : Succeeds y s₁) :
    Succeeds x s := by
  rwa [Succeeds, hrun]

theorem pure (a : α) (s : Store) : Succeeds (Pure.pure a : EStateM ε Store α) s :=
  ⟨a, s, rfl⟩

theorem get_bind {f : Store → EStateM ε Store β} (h : Succeeds (f s) s) :
    Succeeds (get >>= f) s := h

theorem bind (h : Succeeds x s) {f : α → EStateM ε Store β}
    (hf : ∀ a s', x s = .ok a s' → Succeeds (f a) s') : Succeeds (x >>= f) s := by
  obtain ⟨a, s', hx⟩ := h
  exact .of_run_eq (bind_apply_of_ok hx f) (hf a s' hx)

/-- What is known of the result where the computation succeeds is known of what goes on from
there. -/
theorem bind_ensures (h : Succeeds x s) {Q : α → Store → Prop} (hx : Ensures x s Q)
    {f : α → EStateM ε Store β} (hf : ∀ a s', s.Grown s' → Q a s' → Succeeds (f a) s') :
    Succeeds (x >>= f) s :=
  h.bind fun a s' hrun => hf a s' (hx.of_ok hrun).1 (hx.of_ok hrun).2

theorem ne_error (h : Succeeds x s) {e : ε} {s' : Store} : x s ≠ .error e s' := by
  obtain ⟨a, s₁, hrun⟩ := h
  exact fun h => nomatch hrun.symm.trans h

theorem runs (h : Succeeds x s) {Q : α → Store → Prop} (hx : Ensures x s Q) : Runs x s := by
  obtain ⟨a, s', hrun⟩ := h
  exact ⟨a, s', hrun, (hx.of_ok hrun).1⟩

/-- A computation for each item of a list, where each of them keeps what the next one asks for. -/
theorem forM {f : α → EStateM ε Store PUnit} {I : Store → Prop} (hs : I s) (items : List α)
    (hf : ∀ a ∈ items, ∀ s', I s' → Succeeds (f a) s' ∧ ∀ u s'', f a s' = .ok u s'' → I s'') :
    Succeeds (items.forM f) s := by
  induction items generalizing s with
  | nil => exact .pure _ s
  | cons a items ih =>
    obtain ⟨hfirst, hkeep⟩ := hf a List.mem_cons_self s hs
    exact hfirst.bind fun _ s' hb =>
      ih (hkeep _ s' hb) fun a' ha' => hf a' (List.mem_cons_of_mem _ ha')

end Succeeds

namespace Runs

variable {ε α β : Type} {x : EStateM ε Store α} {s : Store}

theorem succeeds (h : Runs x s) : Succeeds x s := by
  obtain ⟨a, s', hrun, -⟩ := h
  exact ⟨a, s', hrun⟩

theorem pure (hs : s.WellFormed) (a : α) : Runs (Pure.pure a : EStateM ε Store α) s :=
  ⟨a, s, rfl, .refl hs⟩

theorem get_bind {f : Store → EStateM ε Store β} (h : Runs (f s) s) : Runs (get >>= f) s := h

theorem bind_succeeds (h : Runs x s) {f : α → EStateM ε Store β}
    (hf : ∀ a s', s.Grown s' → Succeeds (f a) s') : Succeeds (x >>= f) s := by
  obtain ⟨a, s', hx, hgrown⟩ := h
  exact .of_run_eq (bind_apply_of_ok hx f) (hf a s' hgrown)

theorem bind (h : Runs x s) {f : α → EStateM ε Store β}
    (hf : ∀ a s', x s = .ok a s' → s.Grown s' → Runs (f a) s') : Runs (x >>= f) s := by
  obtain ⟨a, s', hx, hgrown⟩ := h
  obtain ⟨b, s'', hb, hgrown'⟩ := hf a s' hx hgrown
  exact ⟨b, s'', (bind_apply_of_ok hx f).trans hb, hgrown.trans hgrown'⟩

theorem mapM {f : α → EStateM ε Store β} (hs : s.WellFormed) (items : List α)
    (hf : ∀ a ∈ items, ∀ s', s.Grown s' → Runs (f a) s') : Runs (items.mapM f) s := by
  induction items generalizing s with
  | nil => exact .pure hs []
  | cons a items ih =>
    rw [List.mapM_cons]
    refine (hf a List.mem_cons_self s (.refl hs)).bind fun b s' _ hgrown => ?_
    refine (ih hgrown.wellFormed fun a' ha' s'' hgrown' =>
      hf a' (List.mem_cons_of_mem _ ha') s'' (hgrown.trans hgrown')).bind
      fun bs s'' _ hgrown' => .pure hgrown'.wellFormed _

theorem option_mapM {f : α → EStateM ε Store β} (hs : s.WellFormed) (o : Option α)
    (hf : ∀ a, o = some a → Runs (f a) s) : Runs (o.mapM f) s := by
  cases o with
  | none => exact .pure hs none
  | some a => exact (hf a rfl).bind fun b s' _ hgrown => .pure hgrown.wellFormed (some b)

end Runs

namespace Store

/-! ### What a type needs -/

/-- A type contains itself, its parts, and what these contain. -/
def Contains (s : Store) : TypeId → TypeId → Prop :=
  Relation.ReflTransGen fun t u => u ∈ s.parts t

/-- What a constructed type puts in place of the parameters of its definition. -/
def instantiation (s : Store) (t : TypeId) : Substitution :=
  .forType (s.head t) (s.info t).arguments

/-- **A type needs another one** that is constructed while what stands above it is worked out: the
image of something in what stands above its definition, or what arrays are walked through as. What
is its own image is there already. -/
inductive Needs (s : Store) (t : TypeId) : TypeId → Prop
  /-- A constructed type whose arguments are replaced. -/
  | image {w p u : TypeId} {shape : Shape} {c : Option TypeId} {as : List TypeId} :
      w ∈ (s.info (s.head t)).above → s.Contains w p → s.form p = .named shape c as →
        Image s (s.instantiation t).Sends p u → u ≠ p → Needs s t u
  /-- An array of one dimension whose element is replaced. -/
  | enumerable {w p e e' u : TypeId} :
      w ∈ (s.info (s.head t)).above → s.Contains w p → s.form p = .array e 1 →
        Image s (s.instantiation t).Sends e e' → e' ≠ e →
        s.IsConstructed Core.enumerableOf [e'] u → Needs s t u

/-- **The types that a construction is nested in**, the last one first: they are different, each is
needed by the one after it in the list, and each is constructed from a definition that was there at
first. -/
structure Path (s₀ s : Store) (ts : List TypeId) : Prop where
  /-- Each is needed by the next. -/
  needed : ts.IsChain fun u t => s.Needs t u
  /-- No type occurs twice. -/
  nodup : ts.Nodup
  /-- Each is constructed from a definition that was there at first. -/
  constructed : ∀ t ∈ ts, s.Holds t ∧ ∃ d, (s.info t).definition = some d ∧ s₀.Holds d

/-- **Hierarchies end**: wherever the store may grow to, no types that need each other in turn are
as many as there are numbers for types. -/
def Ends (s₀ : Store) : Prop :=
  ∀ s, s₀.Extends s → s.WellFormed → ∀ ts, s₀.Path s ts → ts.length < idLimit

/-! ### In a store that grows -/

section Grow

variable {s₀ s s' : Store} {t u : TypeId} {ts : List TypeId}

theorem Contains.holds (h : s.Contains t u) (hs : s.Formed) (ht : s.Holds t) : s.Holds u := by
  induction h with
  | refl => exact ht
  | tail _ hu _ => exact hs.holds_part hu

theorem Contains.of_extends (h : s.Contains t u) (hs : s.Formed) (hext : s.Extends s')
    (ht : s.Holds t) : s'.Contains t u := by
  induction h with
  | refl => exact .refl
  | tail hu hpart ih =>
    refine ih.tail ?_
    rw [hext.parts_eq (Contains.holds hu hs ht)]
    exact hpart

/-- The definition of a type is held. -/
theorem Formed.holds_head (hs : s.Formed) (ht : s.Holds t) : s.Holds (s.head t) := by
  rw [head]
  cases hd : (s.info t).definition with
  | none => exact ht
  | some d =>
    obtain ⟨shape, hf⟩ := hs.form_of_definition hd
    exact hs.holds_definition hf

theorem Extends.above_head_eq (h : s.Extends s') (hs : s.Formed) (ht : s.Holds t) :
    (s'.info (s'.head t)).above = (s.info (s.head t)).above := by
  rw [h.head_eq ht, h.info_eq (hs.holds_head ht)]

theorem Extends.instantiation_eq (h : s.Extends s') (ht : s.Holds t) :
    s'.instantiation t = s.instantiation t := by
  rw [instantiation, instantiation, h.head_eq ht, h.info_eq ht]

/-- What is needed stays needed. -/
theorem Needs.of_extends (h : s.Needs t u) (hs : s.WellFormed) (hext : s.Extends s')
    (ht : s.Holds t) (hu : s.Holds u) : s'.Needs t u := by
  cases h with
  | image hw hp hf himage hne =>
    have hheld := hp.holds hs.toFormed (hs.holds_above hw)
    refine .image ?_ (hp.of_extends hs.toFormed hext (hs.holds_above hw))
      ((hext.form_eq hheld).trans hf) ?_ hne
    · rwa [hext.above_head_eq hs.toFormed ht]
    · rw [hext.instantiation_eq ht]
      exact himage.of_extends hs.toFormed hext hheld hu
  | enumerable hw hp hf himage hne hconstructed =>
    have hheld := hp.holds hs.toFormed (hs.holds_above hw)
    have he := hs.holds_part (element_mem_parts hf)
    obtain ⟨shape, c, hfu⟩ := hconstructed.named
    have he' := hs.holds_part (argument_mem_parts hfu (List.mem_singleton_self _))
    refine .enumerable ?_ (hp.of_extends hs.toFormed hext (hs.holds_above hw))
      ((hext.form_eq hheld).trans hf) ?_ hne (hconstructed.of_extends hext)
    · rwa [hext.above_head_eq hs.toFormed ht]
    · rw [hext.instantiation_eq ht]
      exact himage.of_extends hs.toFormed hext he he'

theorem Path.of_extends (h : s₀.Path s ts) (hs : s.WellFormed) (hext : s.Extends s') :
    s₀.Path s' ts where
  needed := h.needed.imp_of_mem_imp fun u t hu ht hneeds =>
    hneeds.of_extends hs hext (h.constructed t ht).1 (h.constructed u hu).1
  nodup := h.nodup
  constructed t ht := by
    obtain ⟨hheld, d, hd, hd₀⟩ := h.constructed t ht
    exact ⟨hext.holds hheld, d, by rw [hext.info_eq hheld, hd], hd₀⟩

end Grow

/-! ### What a path is on the way to -/

section Serves

variable {s₀ s s' : Store} {σ : Substitution} {t d e : TypeId} {ts args : List TypeId}

/-- **A substitution serves a path**: it is applied to something in what stands above the definition
of the last type. Where the path is empty it may be any. -/
def Serves (s : Store) (ts : List TypeId) (σ : Substitution) (t : TypeId) : Prop :=
  ∀ top ∈ ts.head?, s.Holds top ∧ σ = s.instantiation top ∧
    ∃ w ∈ (s.info (s.head top)).above, s.Contains w t

/-- **A construction is asked for by a path**: once it is made, the last type needs what is made. -/
def Asks (s : Store) (ts : List TypeId) (d : TypeId) (args : List TypeId) : Prop :=
  ∀ top ∈ ts.head?, ∀ s', s.Extends s' → s'.WellFormed → ∀ u, s'.IsConstructed d args u →
    s'.Needs top u

theorem Serves.of_extends (h : s.Serves ts σ t) (hs : s.WellFormed) (hext : s.Extends s') :
    s'.Serves ts σ t := by
  intro top htop
  obtain ⟨hheld, rfl, w, hw, ht⟩ := h top htop
  refine ⟨hext.holds hheld, (hext.instantiation_eq hheld).symm, w, ?_,
    ht.of_extends hs.toFormed hext (hs.holds_above hw)⟩
  rwa [hext.above_head_eq hs.toFormed hheld]

/-- What serves a type serves its parts. -/
theorem Serves.part (h : s.Serves ts σ t) {u : TypeId} (hu : u ∈ s.parts t) : s.Serves ts σ u := by
  intro top htop
  obtain ⟨hheld, hσ, w, hw, ht⟩ := h top htop
  exact ⟨hheld, hσ, w, hw, ht.tail hu⟩

/-- Where the arguments of a type are replaced, the path asks for the type with the new ones. -/
theorem Serves.asks (h : s.Serves ts σ t) (hs : s.WellFormed) (ht : s.Holds t) {shape : Shape}
    {c : Option TypeId} {as us : List TypeId} (hf : s.form t = .named shape c as)
    (himages : List.Forall₂ (fun a u => s.Holds a ∧ s.Holds u ∧ Image s σ.Sends a u) as us)
    (hne : us ≠ as) : s.Asks ts (s.head t) us := by
  intro top htop s' hext hs' u hu
  obtain ⟨hheld, rfl, w, hw, hcontains⟩ := h top htop
  have hf' := (hext.form_eq ht).trans hf
  obtain ⟨shape', own, hown, -, c', hfu⟩ := hu.form_definition hs'.toFormed
  obtain ⟨own', hown', -⟩ := hs'.form_head hf'
  rw [hext.head_eq ht, hown] at hown'
  cases hown'
  refine .image ?_ (hcontains.of_extends hs.toFormed hext (hs.holds_above hw)) hf'
    (.named hf' hfu ?_ fun k a b ha hb => ?_) fun heq => ?_
  · rwa [hext.above_head_eq hs.toFormed hheld]
  · rw [hu.head_eq, hext.head_eq ht]
  · have hrel := rel_getElem?_of_forall₂ himages k
    rw [ha, hb] at hrel
    cases hrel with
    | some himage =>
      rw [hext.instantiation_eq hheld]
      exact himage.2.2.of_extends hs.toFormed hext himage.1 himage.2.1
  · rw [heq, hf'] at hfu
    cases hfu
    exact hne rfl

/-- Where the element of an array is replaced, the path asks for what the new array is walked
through as. -/
theorem Serves.asks_enumerable (h : s.Serves ts σ t) (hs : s.WellFormed) (ht : s.Holds t)
    (hf : s.form t = .array e 1) {u : TypeId} (hu : s.Holds u) (himage : Image s σ.Sends e u)
    (hne : u ≠ e) : s.Asks ts Core.enumerableOf [u] := by
  intro top htop s' hext hs' v hv
  obtain ⟨hheld, rfl, w, hw, hcontains⟩ := h top htop
  refine .enumerable ?_ (hcontains.of_extends hs.toFormed hext (hs.holds_above hw))
    ((hext.form_eq ht).trans hf) ?_ hne hv
  · rwa [hext.above_head_eq hs.toFormed hheld]
  · rw [hext.instantiation_eq hheld]
    exact himage.of_extends hs.toFormed hext (hs.holds_part (element_mem_parts hf)) hu

end Serves

/-! ### What a construction is nested in -/

/-- **A construction is nested** in the types of a path, and there is room for a number of types
more before the numbers for types run out. -/
structure Nested (s₀ s : Store) (ts : List TypeId) (n : Nat) : Prop extends s₀.Extends s where
  /-- The store is well formed. -/
  wellFormed : s.WellFormed
  /-- The types that the construction is nested in. -/
  path : s₀.Path s ts
  /-- The room that is left. -/
  room : ts.length + n + 1 = idLimit

namespace Nested

variable {s₀ s s' : Store} {ts : List TypeId} {n : Nat}

/-- At first a construction is nested in nothing. -/
theorem outermost (hext : s₀.Extends s) (hs : s.WellFormed) :
    s₀.Nested s [] (idLimit - 1) where
  toExtends := hext
  wellFormed := hs
  path := ⟨.nil, .nil, fun _ ht => absurd ht List.not_mem_nil⟩
  room := by
    rw [List.length_nil, Nat.zero_add]
    exact Nat.sub_add_cancel Nat.one_le_two_pow

theorem of_grown (h : s₀.Nested s ts n) (hgrown : s.Grown s') : s₀.Nested s' ts n where
  toExtends := h.toExtends.trans hgrown.toExtends
  wellFormed := hgrown.wellFormed
  path := h.path.of_extends h.wellFormed hgrown.toExtends
  room := h.room

/-- **A type that is entered is nested in more**: where hierarchies end there was room for it. -/
theorem enter (h : s₀.Nested s ts n) (hends : s₀.Ends) {d : TypeId} {args : List TypeId}
    (hd : s₀.Holds d) {shape : Shape}
    (hrow : (constructedInfo (s.info d) d args).form = .named shape (some d) args)
    (hgrown : s.Grown (s.add (constructedInfo (s.info d) d args)).2) (hasks : s.Asks ts d args) :
    ∃ m, n = m + 1 ∧ s₀.Nested (s.add (constructedInfo (s.info d) d args)).2 (s.next :: ts) m := by
  have hinfo := info_add_next s (constructedInfo (s.info d) d args)
  have hnext : (s.add (constructedInfo (s.info d) d args)).2.Holds s.next :=
    (holds_add s _).mpr (.inr rfl)
  have hmade : (s.add (constructedInfo (s.info d) d args)).2.IsConstructed d args s.next := by
    have hf := (form_add_next s _).trans hrow
    exact ⟨hnext, head_of_named hf, shape, some d, hf⟩
  have hgrownPath := (h.of_grown hgrown).path
  have hpath : s₀.Path (s.add (constructedInfo (s.info d) d args)).2 (s.next :: ts) := by
    refine ⟨hgrownPath.needed.cons fun top htop => ?_, List.nodup_cons.mpr
      ⟨fun hmem => ?_, h.path.nodup⟩, fun t ht => ?_⟩
    · exact hasks top htop _ hgrown.toExtends hgrown.wellFormed s.next hmade
    · exact s.next_not_holds (h.path.constructed s.next hmem).1
    · rcases List.mem_cons.mp ht with rfl | ht
      · exact ⟨hnext, d, by rw [hinfo]; rfl, hd⟩
      · exact hgrownPath.constructed t ht
  have hlt := hends _ (h.toExtends.trans hgrown.toExtends) hgrown.wellFormed _ hpath
  have hroom := h.room
  rw [List.length_cons] at hlt
  obtain ⟨m, rfl⟩ : ∃ m, n = m + 1 := ⟨n - 1, by omega⟩
  exact ⟨m, rfl, h.toExtends.trans hgrown.toExtends, hgrown.wellFormed, hpath, by
    rw [List.length_cons]
    omega⟩

/-- The substitution of a type that was entered serves what stands above its definition. -/
theorem serves_enter {d : TypeId} {args : List TypeId} {shape : Shape} (hd : s.Holds d)
    (hrow : (constructedInfo (s.info d) d args).form = .named shape (some d) args) {u : TypeId}
    (hu : u ∈ (s.info d).above) :
    (s.add (constructedInfo (s.info d) d args)).2.Serves (s.next :: ts) (.forType d args) u := by
  intro top htop
  obtain rfl : s.next = top := Option.some.inj htop
  have hf := (form_add_next s (constructedInfo (s.info d) d args)).trans hrow
  have hhead : (s.add (constructedInfo (s.info d) d args)).2.head s.next = d := head_of_named hf
  refine ⟨(holds_add s _).mpr (.inr rfl), ?_, u, ?_, .refl⟩
  · rw [instantiation, hhead, arguments_of_named hf]
  · rw [hhead, (extends_add s _).info_eq hd]
    exact hu

end Nested

end Store

/-! ### The three constructions -/

/-- **The three constructions succeed** where hierarchies end, with a bound on their nesting that
leaves enough for the types that there is room for. -/
structure EndSpec (s₀ : Store) (depth : Nat) : Prop where
  /-- A substitution, in a type that was there at first. -/
  substitute : ∀ {σ : Substitution} {t : TypeId} {s : Store} {ts : List TypeId} {n : Nat},
    s₀.Nested s ts n → s.Serves ts σ t → s₀.Holds t → σ.HeldBy s →
    s₀.height t + n * (s₀.size + 3) + 3 ≤ depth → Succeeds (substituteWithin depth σ t) s
  /-- A construction that is given a definition and as many arguments as it has parameters. -/
  construct : ∀ {d : TypeId} {args : List TypeId} {s : Store} {ts : List TypeId} {n : Nat},
    s₀.Nested s ts n → s.Asks ts d args → s₀.Holds d → (∀ a ∈ args, s.Holds a) →
    (s.info d).isDefinition → (s.info d).arguments.length = args.length →
    n * (s₀.size + 3) + 1 ≤ depth → Succeeds (constructWithin depth d args) s
  /-- An array. -/
  array : ∀ {e : TypeId} {rank : Nat} {s : Store} {ts : List TypeId} {n : Nat},
    s₀.Nested s ts n → (max rank 1 = 1 → s.Asks ts Core.enumerableOf [e]) → s.Holds e →
    n * (s₀.size + 3) + 2 ≤ depth → Succeeds (arrayOfWithin depth e rank) s

section Step

variable {s₀ : Store} (hs₀ : s₀.WellFormed) (hends : s₀.Ends) {depth : Nat}
  (spec : EndSpec s₀ depth)

theorem succeeds_byRef (e : TypeId) (s : Store) : Succeeds (byRef e) s := by
  unfold byRef
  refine .get_bind ?_
  split
  · exact .pure _ _
  · exact ⟨_, _, rfl⟩

/-- An array is found, or its row is added. -/
theorem succeeds_arrayOrAdd (e : TypeId) (rank : Nat) (interfaces : List TypeId) (s : Store) :
    Succeeds (ε := TypeError) (do
      let s ← get
      match s.array? e (max rank 1) with
      | some t => return t
      | none => addType (arrayInfo s e (max rank 1) interfaces)) s := by
  refine .get_bind ?_
  split
  · exact .pure _ _
  · exact ⟨_, _, rfl⟩

include spec in
/-- The types of a list are substituted one by one. -/
theorem EndSpec.substituteAll {σ : Substitution} {s : Store} {ts : List TypeId} {n : Nat}
    (hnested : s₀.Nested s ts n) (hσ : σ.HeldBy s) {us : List TypeId}
    (hus : ∀ u ∈ us, s.Serves ts σ u ∧ s₀.Holds u ∧
      s₀.height u + n * (s₀.size + 3) + 3 ≤ depth) :
    Runs (us.mapM (substituteWithin depth σ)) s := by
  refine .mapM hnested.wellFormed us fun u hu s' hgrown => ?_
  obtain ⟨hserves, hheld, hdepth⟩ := hus u hu
  have hnested' := hnested.of_grown hgrown
  have hσ' := hσ.of_extends hgrown.toExtends
  exact (spec.substitute hnested' (hserves.of_extends hnested.wellFormed hgrown.toExtends) hheld
    hσ' hdepth).runs
      ((constructionSpec depth).substitute hgrown.wellFormed (hnested'.holds hheld) hσ')

section Substitute

variable {σ : Substitution} {t : TypeId} {s : Store} {ts : List TypeId} {n : Nat}
  (hnested : s₀.Nested s ts n) (hserves : s.Serves ts σ t) (ht : s₀.Holds t) (hσ : σ.HeldBy s)
  (hdepth : s₀.height t + n * (s₀.size + 3) + 3 ≤ depth + 1)

include hs₀ hnested hserves ht hdepth in
/-- What a path serves is served in its parts, and these are nested less deeply. -/
theorem serves_part {u : TypeId} (hu : u ∈ s.parts t) : s.Serves ts σ u ∧ s₀.Holds u ∧
    s₀.height u + n * (s₀.size + 3) + 3 ≤ depth := by
  have hu₀ : u ∈ s₀.parts t := hnested.parts_eq ht ▸ hu
  have hlt := hs₀.height_part hu₀
  exact ⟨hserves.part hu, hs₀.holds_part hu₀, by omega⟩

include hs₀ spec hnested hserves ht hσ hdepth

theorem succeeds_substituteArray (hempty : ¬ σ.isEmpty) {e : TypeId} {rank : Nat}
    (hf : s.form t = .array e rank) : Succeeds (substituteWithin (depth + 1) σ t) s := by
  have hs := hnested.wellFormed
  obtain ⟨hserves', he, hdepth'⟩ :=
    serves_part hs₀ hnested hserves ht hdepth (Store.element_mem_parts hf)
  refine .of_run_eq (substituteWithin_of_array hempty hf depth) ?_
  refine (spec.substitute hnested hserves' he hσ hdepth').bind_ensures
    ((constructionSpec depth).substitute hs (hnested.holds he) hσ) fun u s' hgrown hu => ?_
  split
  case isTrue => exact .pure _ _
  case isFalse hne =>
    refine spec.array (hnested.of_grown hgrown) (fun hone => ?_) hu.1 (by omega)
    have hrank := hs.rank_pos hf
    obtain rfl : rank = 1 := by omega
    have hf' := (hgrown.form_eq (hnested.holds ht)).trans hf
    exact (hserves.of_extends hs hgrown.toExtends).asks_enumerable hgrown.wellFormed
      (hgrown.holds (hnested.holds ht)) hf' hu.1 hu.2 hne

theorem succeeds_substituteReference (hempty : ¬ σ.isEmpty) {e : TypeId}
    (hf : s.form t = .reference e) : Succeeds (substituteWithin (depth + 1) σ t) s := by
  obtain ⟨hserves', he, hdepth'⟩ :=
    serves_part hs₀ hnested hserves ht hdepth (Store.target_mem_parts hf)
  refine .of_run_eq (substituteWithin_of_reference hempty hf depth) ?_
  refine (spec.substitute hnested hserves' he hσ hdepth').bind fun u s' _ => ?_
  split
  · exact .pure _ _
  · exact succeeds_byRef u s'

theorem succeeds_substituteNamed (hempty : ¬ σ.isEmpty) {shape : Shape} {d : Option TypeId}
    {as : List TypeId} (hf : s.form t = .named shape d as) :
    Succeeds (substituteWithin (depth + 1) σ t) s := by
  have hs := hnested.wellFormed
  have hpart : ∀ a ∈ as, s.Serves ts σ a ∧ s₀.Holds a ∧
      s₀.height a + n * (s₀.size + 3) + 3 ≤ depth := fun a ha =>
    serves_part hs₀ hnested hserves ht hdepth (Store.argument_mem_parts hf ha)
  refine .of_run_eq (substituteWithin_of_named hempty hf depth) ?_
  split
  case isTrue => exact .pure _ _
  case isFalse hnil =>
  refine (spec.substituteAll hnested hσ hpart).succeeds.bind_ensures
    ((constructionSpec depth).substituteAll hs hσ fun a ha => hnested.holds (hpart a ha).2.1)
    fun us s' hgrown hus => ?_
  split
  case isTrue => exact .pure _ _
  case isFalse hne =>
  have ht' := hnested.holds ht
  have hf' := (hgrown.form_eq ht').trans hf
  obtain ⟨own, hown, hlen⟩ := hgrown.wellFormed.form_head hf'
  rw [hgrown.head_eq ht'] at hown
  have hasks := (hserves.of_extends hs hgrown.toExtends).asks hgrown.wellFormed
    (hgrown.holds ht') hf' hus hne
  rw [hgrown.head_eq ht'] at hasks
  refine spec.construct (hnested.of_grown hgrown) hasks ?_ (fun u hu => ?_) ?_ ?_ (by omega)
  · rw [hnested.head_eq ht]
    exact hs₀.holds_head ht
  · obtain ⟨a, -, -, hu, -⟩ := exists_mem_of_forall₂_right hus hu
    exact hu
  · refine TypeInfo.isDefinition_of_form hown ?_
    rintro rfl
    exact hnil (List.eq_nil_of_length_eq_zero hlen.symm)
  · rw [Store.arguments_of_named hown, hlen, hus.length_eq]

theorem succeeds_substituteWithin : Succeeds (substituteWithin (depth + 1) σ t) s := by
  by_cases hempty : σ.isEmpty
  · exact .of_run_eq (substituteWithin_of_isEmpty hempty depth t s) (.pure _ _)
  cases hf : s.form t with
  | parameter o k =>
    obtain ⟨p, hp, -⟩ := TypeInfo.form_eq_parameter_iff.mp hf
    exact ⟨_, _, substituteWithin_of_parameter hempty hp depth⟩
  | array e rank =>
    exact succeeds_substituteArray hs₀ spec hnested hserves ht hσ hdepth hempty hf
  | reference e =>
    exact succeeds_substituteReference hs₀ spec hnested hserves ht hσ hdepth hempty hf
  | named shape d as =>
    exact succeeds_substituteNamed hs₀ spec hnested hserves ht hσ hdepth hempty hf

end Substitute

include hs₀ hends spec in
theorem succeeds_constructWithin {d : TypeId} {args : List TypeId} {s : Store} {ts : List TypeId}
    {n : Nat} (hnested : s₀.Nested s ts n) (hasks : s.Asks ts d args) (hd : s₀.Holds d)
    (hargs : ∀ a ∈ args, s.Holds a) (hdef : (s.info d).isDefinition)
    (hlen : (s.info d).arguments.length = args.length)
    (hdepth : n * (s₀.size + 3) + 1 ≤ depth + 1) :
    Succeeds (constructWithin (depth + 1) d args) s := by
  have hs := hnested.wellFormed
  obtain ⟨-, hnot⟩ | ⟨-, ⟨t, hrun, -⟩ | ⟨hown, hnone, hrun⟩⟩ :=
    constructWithin_cases depth d args s
  · exact absurd ⟨hdef, hlen⟩ hnot
  · exact ⟨t, s, hrun⟩
  obtain ⟨shape, hrow, hgrown₁⟩ := grown_add_constructed hs hargs hdef hlen hown hnone
  obtain ⟨m, rfl, hnested₁⟩ := hnested.enter hends hd hrow hgrown₁ hasks
  have hσ : (Substitution.forType d args).HeldBy (s.add (constructedInfo (s.info d) d args)).2 :=
    .forType fun a ha => hgrown₁.holds (hargs a ha)
  -- What stands above the definition stood there at first, so it is not nested deeper than that.
  have habove : ∀ u ∈ (s.info d).above,
      (s.add (constructedInfo (s.info d) d args)).2.Serves (s.next :: ts) (.forType d args) u ∧
        s₀.Holds u ∧ s₀.height u + m * (s₀.size + 3) + 3 ≤ depth := fun u hu => by
    refine ⟨Store.Nested.serves_enter (hnested.holds hd) hrow hu, ?_⟩
    rw [hnested.info_eq hd] at hu
    have hheld := hs₀.holds_above hu
    have hle : s₀.height u ≤ s₀.size := Nat.le_trans (s₀.height_le u) hheld
    rw [Nat.succ_mul] at hdepth
    exact ⟨hheld, by omega⟩
  have hbase : Runs ((s.info d).base.mapM (substituteWithin depth (.forType d args)))
      (s.add (constructedInfo (s.info d) d args)).2 :=
    .option_mapM hgrown₁.wellFormed _ fun b hb => by
      obtain ⟨hserves, hheld, hle⟩ := habove b (TypeInfo.base_mem_above hb)
      exact (spec.substitute hnested₁ hserves hheld hσ hle).runs
        ((constructionSpec depth).substitute hgrown₁.wellFormed (hnested₁.holds hheld) hσ)
  refine .of_run_eq hrun (hbase.bind_succeeds fun base s₂ hgrown₂ => ?_)
  refine (spec.substituteAll (hnested₁.of_grown hgrown₂) (hσ.of_extends hgrown₂.toExtends)
    fun u hu => ?_).bind_succeeds fun interfaces s₃ _ => ⟨_, _, rfl⟩
  obtain ⟨hserves, hheld⟩ := habove u (TypeInfo.interface_mem_above hu)
  exact ⟨hserves.of_extends hnested₁.wellFormed hgrown₂.toExtends, hheld⟩

include hs₀ spec in
theorem succeeds_arrayOfWithin {e : TypeId} {rank : Nat} {s : Store} {ts : List TypeId} {n : Nat}
    (hnested : s₀.Nested s ts n) (hasks : max rank 1 = 1 → s.Asks ts Core.enumerableOf [e])
    (he : s.Holds e) (hdepth : n * (s₀.size + 3) + 2 ≤ depth + 1) :
    Succeeds (arrayOfWithin (depth + 1) e rank) s := by
  have hs := hnested.wellFormed
  rw [arrayOfWithin]
  refine .get_bind ?_
  dsimp only
  split
  · exact .pure _ _
  split
  case isTrue hone =>
    obtain ⟨-, -, harguments, -⟩ := TypeInfo.form_eq_named_iff.mp hs.form_enumerableOf
    have hheld : s₀.Holds Core.enumerableOf := Nat.lt_trans (by decide) hs₀.core_lt_size
    refine (spec.construct hnested (hasks hone) hheld (fun a ha => ?_) ?_ ?_ (by omega)).bind
      fun u s' _ => succeeds_arrayOrAdd e rank [u] s'
    · rw [List.mem_singleton.mp ha]
      exact he
    · exact TypeInfo.isDefinition_of_form hs.form_enumerableOf (List.cons_ne_nil _ _)
    · rw [harguments]
      rfl
  case isFalse => exact succeeds_arrayOrAdd e rank [] s

end Step

/-- **Where hierarchies end, the three constructions succeed**, to every nesting that leaves enough
for the types that there is room for. -/
theorem endSpec {s₀ : Store} (hs₀ : s₀.WellFormed) (hends : s₀.Ends) (depth : Nat) :
    EndSpec s₀ depth := by
  induction depth with
  | zero =>
    refine ⟨fun _ _ _ _ hdepth => ?_, fun _ _ _ _ _ _ hdepth => ?_, fun _ _ _ hdepth => ?_⟩
    all_goals exact absurd hdepth (Nat.not_succ_le_zero _)
  | succ depth spec =>
    exact ⟨succeeds_substituteWithin hs₀ spec, succeeds_constructWithin hs₀ hends spec,
      succeeds_arrayOfWithin hs₀ spec⟩

/-! ### The operations -/

section Operations

variable {s₀ s : Store} (hs₀ : s₀.WellFormed) (hends : s₀.Ends) (hext : s₀.Extends s)
  (hs : s.WellFormed)

include hext in
/-- The bound on the nesting leaves enough for as many types as have a number. -/
theorem le_depthBound : (idLimit - 1) * (s₀.size + 3) + (s₀.size + 3) ≤ s.depthBound := by
  rw [← Nat.succ_mul]
  have hlimit : (idLimit - 1).succ = idLimit := Nat.sub_add_cancel Nat.one_le_two_pow
  rw [hlimit]
  exact Nat.mul_le_mul_left _ (Nat.add_le_add_right hext.size_le 3)

include hs₀ hends hext hs

/-- **A substitution succeeds** in a type that was there when hierarchies were known to end. -/
theorem substitute_succeeds {σ : Substitution} {t : TypeId} (ht : s₀.Holds t) (hσ : σ.HeldBy s) :
    Succeeds (substitute σ t) s := by
  refine .get_bind ((endSpec hs₀ hends _).substitute (.outermost hext hs) (by rintro _ ⟨⟩) ht hσ ?_)
  have hle : s₀.height t ≤ s₀.size := Nat.le_trans (s₀.height_le t) ht
  have hbound := le_depthBound hext
  omega

theorem substitute_runs {σ : Substitution} {t : TypeId} (ht : s₀.Holds t) (hσ : σ.HeldBy s) :
    Runs (substitute σ t) s :=
  (substitute_succeeds hs₀ hends hext hs ht hσ).runs (ensures_substitute hs (hext.holds ht) hσ)

/-- **A construction succeeds** that is asked for properly. -/
theorem construct_succeeds {d : TypeId} {args : List TypeId} (hd : s₀.Holds d)
    (hargs : ∀ a ∈ args, s.Holds a) (hdef : (s.info d).isDefinition)
    (hlen : (s.info d).arguments.length = args.length) : Succeeds (construct d args) s := by
  refine .get_bind ((endSpec hs₀ hends _).construct (.outermost hext hs) (by rintro _ ⟨⟩) hd hargs
    hdef hlen ?_)
  have hbound := le_depthBound hext
  omega

end Operations

/-- **Where hierarchies end no construction expands without end**: it succeeds, or it refuses what
it is given. -/
theorem not_isEndless_of_ends {s : Store} (hs : s.WellFormed) (hends : s.Ends) {d : TypeId}
    {args : List TypeId} (hargs : ∀ a ∈ args, s.Holds a) {e : TypeError} {s' : Store}
    (h : construct d args s = .error e s') : ¬ e.IsEndless := by
  by_cases hdef : (s.info d).isDefinition
  swap
  · cases (construct_of_not_isDefinition args hdef).symm.trans h
    exact id
  by_cases hlen : (s.info d).arguments.length = args.length
  swap
  · cases (construct_of_length_ne hdef hlen).symm.trans h
    exact id
  exact absurd h (construct_succeeds hs hends (.refl s) hs (Store.holds_of_isDefinition hdef) hargs
    hdef hlen).ne_error

/-! ### Method parameters that are made again -/

section Rebind

variable {s₀ s : Store} (hs₀ : s₀.WellFormed) (hends : s₀.Ends) (hext : s₀.Extends s)
  (hs : s.WellFormed) {ps : List TypeId} (hps : ∀ t ∈ ps, s₀.Holds t) (m : MethodToken)
  {σ : Substitution} (hσ : σ.HeldBy s)

include hs₀ hends hext hs hps hσ

/-- The constraints of all copies are written: what constrains a parameter was there at first. -/
theorem succeeds_copyAllConstraints :
    Succeeds (copyAllConstraints m ps (s.copies ps).1 σ) (s.copies ps).2 := by
  have hcopies := Store.grown_copies hs ps
  have hσ' : (σ.typePart.withMethod m (s.copies ps).1).HeldBy (s.copies ps).2 :=
    (hσ.of_extends hcopies.toExtends).withMethod _ fun t ht => (Store.mem_copies ps ht).2
  refine .forM (I := fun s' => s.Grown s' ∧ s.CompletedBy s' ∧ (s.copies ps).2.size ≤ s'.size)
    ⟨hcopies, Store.completedBy_addParameters _ 0 _ s.newMethod.2, Nat.le_refl _⟩ _
    fun entry hmem s' ⟨hgrown, hcompleted, hle⟩ => ?_
  obtain ⟨hold, hnew⟩ := List.of_mem_zip hmem
  have hσs : (σ.typePart.withMethod m (s.copies ps).1).HeldBy s' := fun p u hu =>
    Nat.lt_of_lt_of_le (hσ' p u hu) hle
  refine ⟨?_, fun _ s'' hrun => ?_⟩
  · unfold copyConstraints
    refine .get_bind ?_
    split
    case h_1 => exact .pure _ _
    case h_2 p hp =>
      have hheld : ∀ c ∈ p.constraints, s₀.Holds c := fun c hc => by
        rw [(hext.trans hgrown.toExtends).info_eq (hps entry.1 hold)] at hp
        refine hs₀.holds_constraint (t := entry.1) ?_
        rw [TypeInfo.constraints_of_parameter (TypeInfo.parameter?_eq_some_iff.mp hp)]
        exact hc
      refine (Runs.mapM hgrown.wellFormed p.constraints fun c hc s₁ hgrown₁ => ?_).bind_succeeds
        fun us s₁ _ => ⟨_, _, rfl⟩
      exact substitute_runs hs₀ hends ((hext.trans hgrown.toExtends).trans hgrown₁.toExtends)
        hgrown₁.wellFormed (hheld c hc) (hσs.of_extends hgrown₁.toExtends)
  · obtain ⟨hgrown', hcompleted', hle'⟩ := (builds_copyConstraints hgrown hcompleted hσs
      (Store.mem_copies ps hnew).1).of_ok hrun
    exact ⟨hgrown', hcompleted', Nat.le_trans hle hle'⟩

/-- **Method parameters are made again** where hierarchies end. -/
theorem rebind_succeeds : Succeeds (rebindMethodParameters m ps σ) s := by
  cases hlookup : s.rebound.lookup ⟨m, σ.typeOwner, σ.typeArguments⟩ with
  | some found => exact ⟨found, s, rebind_of_lookup hlookup⟩
  | none =>
    refine .of_run_eq (rebind_of_lookup_eq_none hlookup) ?_
    exact (succeeds_copyAllConstraints hs₀ hends hext hs hps m hσ).bind fun _ s' _ => ⟨_, _, rfl⟩

theorem rebind_runs : Runs (rebindMethodParameters m ps σ) s :=
  (rebind_succeeds hs₀ hends hext hs hps m hσ).runs (builds_rebind hs ps m hσ).ensures

end Rebind

end CallSite
