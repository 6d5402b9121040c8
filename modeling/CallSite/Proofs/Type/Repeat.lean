import CallSite.Proofs.Type.Rebind
import CallSite.Proofs.Type.Stable
import CallSite.Resolve.Resolver

/-!
# Doing something again

What a computation on types has made is found when the computation is repeated. `Settles` says so: a
computation appends to the store, and whenever it is repeated, on whatever has been appended since,
it has the same outcome and appends nothing. Only a hierarchy that expands without end is given up
at a depth that grows with the store, and nothing is said about it.

* `Store.Appends` – rows were appended and the tables kept.
* `Settles` – the property, with one rule for each way to put computations together. To read the
  store is allowed where what is read does not change (`Settles.read`).
* `settles_substitute`, `settles_construct`, `settles_rebind` – what is found when it is asked for
  again: an image, a constructed type, the answer to a request for method parameters.
-/

namespace CallSite

/-- **A store was appended to**: it has grown, and its tables were kept. -/
structure Store.Appends (s s' : Store) : Prop extends s.Grown s', s.KeepsTables s'

namespace Store.Appends

variable {s s' s'' : Store}

theorem refl (hs : s.WellFormed) : s.Appends s :=
  ⟨.refl hs, refl_of _ s⟩

theorem trans (h : s.Appends s') (h' : s'.Appends s'') : s.Appends s'' :=
  ⟨h.toGrown.trans h'.toGrown, trans_of _ h.toKeepsTables h'.toKeepsTables⟩

end Store.Appends

/-- **A computation settles**: it appends to the store, what it returns has a property, and to
repeat it has the same outcome and appends nothing. -/
def Settles {ε α : Type} (endless : ε → Prop) (x : EStateM ε Store α) (s : Store)
    (Q : α → Store → Prop) : Prop :=
  match x s with
  | .ok a s' => s.Appends s' ∧ Q a s' ∧ ∀ s'', s'.Appends s'' → x s'' = .ok a s''
  | .error e s' =>
    s.Appends s' ∧ (endless e ∨ ∀ s'', s'.Appends s'' → x s'' = .error e s'')

namespace Settles

variable {ε α β : Type} {endless : ε → Prop} {x : EStateM ε Store α} {s : Store}
  {Q : α → Store → Prop}

theorem of_ok (h : Settles endless x s Q) {a : α} {s' : Store} (hx : x s = .ok a s') :
    s.Appends s' ∧ Q a s' ∧ ∀ s'', s'.Appends s'' → x s'' = .ok a s'' := by
  rw [Settles, hx] at h
  exact h

theorem of_error (h : Settles endless x s Q) {e : ε} {s' : Store} (hx : x s = .error e s') :
    s.Appends s' ∧ (endless e ∨ ∀ s'', s'.Appends s'' → x s'' = .error e s'') := by
  rw [Settles, hx] at h
  exact h

/-- A computation that fails at once, and does so again, settles. -/
theorem of_repeated_error (hs : s.WellFormed) {e : ε} (hx : x s = .error e s)
    (hrepeat : ∀ s', s.Appends s' → x s' = .error e s') : Settles endless x s Q := by
  rw [Settles, hx]
  exact ⟨.refl hs, .inr hrepeat⟩

/-- The store is appended to, whatever the outcome. -/
theorem appends (h : Settles endless x s Q) : s.Appends (storeAfter x s) := by
  cases hx : x s with
  | ok a s' =>
    rw [storeAfter_of_ok hx]
    exact (h.of_ok hx).1
  | error e s' =>
    rw [storeAfter_of_error hx]
    exact (h.of_error hx).1

theorem pure (hs : s.WellFormed) {a : α} (h : Q a s) :
    Settles endless (Pure.pure a : EStateM ε Store α) s Q :=
  ⟨.refl hs, h, fun _ _ => rfl⟩

theorem throw (hs : s.WellFormed) (e : ε) :
    Settles endless (MonadExcept.throw e : EStateM ε Store α) s Q :=
  ⟨.refl hs, .inr fun _ _ => rfl⟩

/-- A computation that fails ends there. -/
theorem throw_bind (hs : s.WellFormed) (e : ε) {f : α → EStateM ε Store β}
    {Q' : β → Store → Prop} :
    Settles endless ((MonadExcept.throw e : EStateM ε Store α) >>= f) s Q' :=
  ⟨.refl hs, .inr fun _ _ => rfl⟩

theorem imp (h : Settles endless x s Q) {Q' : α → Store → Prop}
    (himp : ∀ a s', s.Appends s' → Q a s' → Q' a s') : Settles endless x s Q' := by
  unfold Settles at h ⊢
  cases hx : x s with
  | ok a s' =>
    rw [hx] at h
    exact ⟨h.1, himp a s' h.1 h.2.1, h.2.2⟩
  | error e s' =>
    rw [hx] at h
    exact h

/-- **One computation after another.** -/
theorem bind (h : Settles endless x s Q) {f : α → EStateM ε Store β} {Q' : β → Store → Prop}
    (hf : ∀ a s', s.Appends s' → Q a s' → Settles endless (f a) s' Q') :
    Settles endless (x >>= f) s Q' := by
  cases hx : x s with
  | error e s' =>
    obtain ⟨happends, hrepeat⟩ := h.of_error hx
    rw [Settles, bind_apply_of_error hx]
    exact ⟨happends, hrepeat.imp_right fun h s'' h' => bind_apply_of_error (h s'' h') f⟩
  | ok a s₁ =>
    obtain ⟨happends, hQ, hrepeat⟩ := h.of_ok hx
    have hfa := hf a s₁ happends hQ
    rw [Settles, bind_apply_of_ok hx]
    cases hy : f a s₁ with
    | ok b s₂ =>
      obtain ⟨happends', hQ', hrepeat'⟩ := hfa.of_ok hy
      refine ⟨happends.trans happends', hQ', fun s'' h'' => ?_⟩
      rw [bind_apply_of_ok (hrepeat s'' (happends'.trans h''))]
      exact hrepeat' s'' h''
    | error e s₂ =>
      obtain ⟨happends', hrepeat'⟩ := hfa.of_error hy
      refine ⟨happends.trans happends', hrepeat'.imp_right fun h s'' h'' => ?_⟩
      rw [bind_apply_of_ok (hrepeat s'' (happends'.trans h''))]
      exact h s'' h''

/-- **To read the store** is allowed where what is read does not change when the store is appended
to. -/
theorem read {f : Store → EStateM ε Store β} {Q' : β → Store → Prop}
    (h : Settles endless (f s) s Q') (hf : ∀ s', s.Appends s' → f s' = f s) :
    Settles endless (get >>= f) s Q' := by
  unfold Settles at h ⊢
  rw [get_bind_apply]
  cases hx : f s s with
  | ok a s' =>
    rw [hx] at h
    refine ⟨h.1, h.2.1, fun s'' h'' => ?_⟩
    rw [get_bind_apply, hf s'' (h.1.trans h'')]
    exact h.2.2 s'' h''
  | error e s' =>
    rw [hx] at h
    refine ⟨h.1, h.2.imp_right fun hrepeat s'' h'' => ?_⟩
    rw [get_bind_apply, hf s'' (h.1.trans h'')]
    exact hrepeat s'' h''

/-- A computation for each item of a list. What is known of a result has to persist while the store
is appended to. -/
theorem mapM {f : α → EStateM ε Store β} {P : β → Store → Prop} (hs : s.WellFormed)
    (hmono : ∀ b s' s'', s'.Appends s'' → P b s' → P b s'') (items : List α)
    (hf : ∀ a ∈ items, ∀ s', s.Appends s' → Settles endless (f a) s' P) :
    Settles endless (items.mapM f) s fun bs s' => ∀ b ∈ bs, P b s' := by
  induction items generalizing s with
  | nil => exact .pure hs (by rintro b ⟨⟩)
  | cons a items ih =>
    rw [List.mapM_cons]
    refine (hf a List.mem_cons_self s (.refl hs)).bind fun b s' happends hb => ?_
    refine (ih happends.wellFormed fun a' ha' s'' happends' =>
      hf a' (List.mem_cons_of_mem _ ha') s'' (happends.trans happends')).bind
      fun bs s'' happends' hbs => ?_
    refine .pure happends'.wellFormed fun b' hb' => ?_
    rcases List.mem_cons.mp hb' with rfl | hb'
    · exact hmono _ _ _ happends' hb
    · exact hbs b' hb'

/-- A computation for what may be there. -/
theorem option_mapM {f : α → EStateM ε Store β} {P : β → Store → Prop} (hs : s.WellFormed)
    (o : Option α) (hf : ∀ a, o = some a → Settles endless (f a) s P) :
    Settles endless (o.mapM f) s fun o' s' => ∀ b, o' = some b → P b s' := by
  cases o with
  | none => exact .pure hs (by rintro b ⟨⟩)
  | some a =>
    refine (hf a rfl).bind fun b s' happends hb => .pure happends.wellFormed fun b' hb' => ?_
    cases hb'
    exact hb

/-- A computation on types settles if it completes what it adds, keeps the tables, and finds what it
returns. -/
theorem of_builds {x : TypeM α} (h : Builds x s Q) (htables : Along Store.KeepsTables x)
    (hok : ∀ a s', x s = .ok a s' → Q a s' → ∀ s'', s'.Appends s'' → x s'' = .ok a s'') :
    Settles TypeError.IsEndless x s Q := by
  have hkeeps := htables s
  unfold Settles
  cases hx : x s with
  | ok a s' =>
    obtain ⟨hgrown, -, ha⟩ := h.of_ok hx
    rw [storeAfter_of_ok hx] at hkeeps
    exact ⟨⟨hgrown, hkeeps⟩, ha, hok a s' hx ha⟩
  | error e s' =>
    obtain ⟨hgrown, hendless⟩ := h.of_error hx
    rw [storeAfter_of_error hx] at hkeeps
    exact ⟨⟨hgrown, hkeeps⟩, .inl hendless⟩

end Settles

/-! ### Types that are made from types -/

section Types

variable {s : Store} (hs : s.WellFormed)

include hs

/-- **A substitution settles**: its image is there when it is asked for again. -/
theorem settles_substitute {σ : Substitution} {t : TypeId} (ht : s.Holds t) (hσ : σ.HeldBy s) :
    Settles TypeError.IsEndless (substitute σ t) s fun u s' => s'.Holds u := by
  refine (Settles.of_builds ((builds_substitute hs ht hσ).imp fun u s' hgrown hu =>
    (⟨hgrown, hu⟩ : s.Grown s' ∧ _)) ((sameTables_substitute σ t).imp fun _ _ h => .of_same h)
    ?_).imp fun u s' _ hu => hu.2.1
  rintro u s' - ⟨hgrown, hu, himage⟩ s'' happends
  have ht' := hgrown.holds ht
  exact substitute_of_image happends.wellFormed.toFormed
    (himage.of_extends hgrown.wellFormed.toFormed happends.toExtends ht' hu) (happends.holds ht')
    (happends.holds hu)

/-- **A construction settles**: the constructed type is there when it is asked for again. -/
theorem settles_construct {d : TypeId} {args : List TypeId} (hd : s.Holds d)
    (hargs : ∀ a ∈ args, s.Holds a) :
    Settles TypeError.IsEndless (construct d args) s fun u s' =>
      s'.Holds u := by
  by_cases hdef : (s.info d).isDefinition
  swap
  · refine .of_repeated_error hs (construct_of_not_isDefinition args hdef) fun s' happends => ?_
    have hrun := construct_of_not_isDefinition (s := s') args (by rwa [happends.info_eq hd])
    rwa [Store.display_of_extends hs.toFormed happends.toExtends hd] at hrun
  by_cases hlen : (s.info d).arguments.length = args.length
  swap
  · refine .of_repeated_error hs (construct_of_length_ne hdef hlen) fun s' happends => ?_
    have hrun := construct_of_length_ne (s := s') (by rwa [happends.info_eq hd])
      (by rwa [happends.info_eq hd])
    rwa [happends.info_eq hd, Store.display_of_extends hs.toFormed happends.toExtends hd] at hrun
  refine (Settles.of_builds (builds_construct hs hargs hdef hlen)
    ((sameTables_construct d args).imp fun _ _ h => .of_same h) ?_).imp fun u s' _ hu => hu.holds
  intro u s' _ hu s'' happends
  obtain ⟨shape, d', hf⟩ := hu.named
  have harguments : (s''.info u).arguments = args := by
    rw [happends.info_eq hu.holds, Store.arguments_of_named hf]
  have hne : args ≠ [] := TypeInfo.ne_nil_of_isDefinition hdef hlen
  have hgeneric : s''.genericDefinition u = some d := by
    refine happends.wellFormed.genericDefinition_eq_some_iff.mpr ⟨?_, harguments ▸ hne⟩
    rw [happends.head_eq hu.holds, hu.head_eq]
  have hrun := construct_of_held happends.wellFormed.toFormed hgeneric
  rwa [harguments] at hrun

/-- **A request for method parameters settles**: it is answered from the table when it is made
again. -/
theorem settles_rebind (m : MethodToken) (ps : List TypeId) {σ : Substitution}
    (hσ : σ.HeldBy s) :
    Settles TypeError.IsEndless (rebindMethodParameters m ps σ) s fun found s' =>
      ∀ t ∈ found.2, s'.Holds t :=
  .of_builds (builds_rebind hs ps m hσ) (keepsTables_rebind m ps σ) fun _ _ hrun _ _ happends =>
    rebind_of_lookup (happends.lookup_rebound (lookup_of_rebind hrun))

end Types

/-! ### Types while a member is resolved -/

/-- The hierarchy of a type expands without end. -/
def ResolveError.IsEndless : ResolveError → Prop
  | .type e => e.IsEndless
  | _ => False

theorem ofTypes_apply {α : Type} (x : TypeM α) (s : Store) :
    ofTypes x s = match x s with
      | .ok a s' => .ok a s'
      | .error e s' => .error (.type e) s' := by
  change EStateM.adaptExcept ResolveError.type x s = _
  unfold EStateM.adaptExcept
  cases x s <;> rfl

theorem Settles.ofTypes {α : Type} {x : TypeM α} {s : Store} {Q : α → Store → Prop}
    (h : Settles TypeError.IsEndless x s Q) :
    Settles ResolveError.IsEndless (CallSite.ofTypes x) s Q := by
  unfold Settles at h ⊢
  rw [ofTypes_apply]
  cases hx : x s with
  | ok a s' =>
    rw [hx] at h
    exact ⟨h.1, h.2.1, fun s'' h'' => by rw [ofTypes_apply, h.2.2 s'' h'']⟩
  | error e s' =>
    rw [hx] at h
    refine ⟨h.1, h.2.imp_right fun hrepeat s'' h'' => ?_⟩
    rw [ofTypes_apply, hrepeat s'' h'']

end CallSite
