import CallSite.Proofs.Match.Constraint

/-!
# Matching an open member like a closed one

A member whose parameters are bound is matched as the type that they make of it: a slot that holds a
type is compared with that type and takes no other. So the match of the open member and the match of
the closed one end alike, and the slots stay (`CallSite.Store.eventually_mirrored_of_bound`). From
this it follows that a constraint which a type has, once the parameters in it are replaced, is also
found to hold while the parameters stand for what is bound to them
(`CallSite.Store.eventually_matchConstraint`).

* `Attempt.Mirrors` – an attempt with slots that ends like one without.
-/

namespace CallSite

namespace Attempt

/-! ### Attempts that end alike -/

/-- **An attempt with slots mirrors one without**: both end alike, and the slots stay. -/
def Mirrors (i : Inference) (a b : Attempt Inference) : Prop :=
  (a = .refused ∧ b = .refused) ∨ (a.Stays i ∧ b.Closes)

variable {i : Inference} {a b : Attempt Inference} {β : Type}

namespace Mirrors

theorem refused (i : Inference) : Mirrors i .refused .refused :=
  .inl ⟨rfl, rfl⟩

theorem accepted (i : Inference) (cost cost' : MatchCost) :
    Mirrors i (.accepted { i with cost := cost }) (.accepted { cost := cost' }) :=
  .inr ⟨.accepted i cost, .accepted cost'⟩

theorem guard (i : Inference) (condition : Bool) (cost cost' : MatchCost) :
    Mirrors i (.guard condition { i with cost := cost }) (.guard condition { cost := cost' }) := by
  cases condition
  · exact .refused i
  · exact .accepted i cost cost'

theorem ends (h : Mirrors i a b) : a.Ends i := by
  obtain ⟨rfl, -⟩ | ⟨h, -⟩ := h
  · exact .inl rfl
  · exact .inr h

theorem stays (h : Mirrors i a b) (hb : b.Closes) : a.Stays i := by
  obtain ⟨-, rfl⟩ | ⟨h, -⟩ := h
  · obtain ⟨_, hb⟩ := hb
    cases hb
  · exact h

theorem orElse {f g : Unit → Attempt Inference} (h : Mirrors i a b)
    (hfg : Mirrors i (f ()) (g ())) : Mirrors i (a.orElse f) (b.orElse g) := by
  obtain ⟨rfl, rfl⟩ | ⟨ha, hb⟩ := h
  · exact hfg
  · exact .inr ⟨ha.orElse f, hb.orElse g⟩

/-- Item by item, with the same item on one side of each pair. -/
theorem all_zip {α : Type} {step : β × α → Inference → Attempt Inference} {xs : List β}
    {as bs : List α} {R : α → α → Prop} (h : List.Forall₂ R as bs)
    (hstep : ∀ b ∈ xs, ∀ x y, R x y → ∀ cost cost',
      Mirrors i (step (b, x) { i with cost := cost }) (step (b, y) { cost := cost' }))
    (cost cost' : MatchCost) :
    Mirrors i (Attempt.all step (xs.zip as) { i with cost := cost })
      (Attempt.all step (xs.zip bs) { cost := cost' }) := by
  induction h generalizing xs cost cost' with
  | nil =>
    rw [List.zip_nil_right]
    exact .accepted i cost cost'
  | @cons x y as bs hxy _ ih =>
    -- The lists need not be of one length; the shorter one ends the match on both sides.
    cases xs with
    | nil => exact .accepted i cost cost'
    | cons b xs =>
      rw [List.zip_cons_cons, List.zip_cons_cons, Attempt.all, Attempt.all]
      obtain ⟨ha, hb⟩ | ⟨⟨cost₁, ha⟩, cost₁', hb⟩ := hstep b List.mem_cons_self x y hxy cost cost'
      · rw [ha, hb]
        exact .refused i
      · rw [ha, hb]
        exact ih (fun c hc => hstep c (List.mem_cons_of_mem _ hc)) cost₁ cost₁'

/-- Trying the same again changes nothing. -/
theorem retry (h : Mirrors i a b) : Mirrors i (a.orElse fun _ => a) b := by
  obtain ⟨rfl, rfl⟩ | ⟨ha, hb⟩ := h
  · exact .refused i
  · exact .inr ⟨ha.orElse _, hb⟩

/-- What is compared first makes no difference where the comparisons differ only on what is accepted
without them as well. -/
theorem shortcut {P Q : Prop} [Decidable P] [Decidable Q] (h : Mirrors i a b)
    (cost cost' : MatchCost) (hPQ : P → Q) (hQ : Q → b.Closes) :
    Mirrors i (if P then .accepted { i with cost := cost } else a)
      (if Q then .accepted { cost := cost' } else b) := by
  by_cases hq : Q
  · rw [if_pos hq]
    split
    · exact .accepted i cost cost'
    · exact .inr ⟨h.stays (hQ hq), .accepted cost'⟩
  · rw [if_neg hq, if_neg fun hp => hq (hPQ hp)]
    exact h

end Mirrors

end Attempt

/-! ### Members that are matched alike -/

/-- What holds at every great depth decides what holds one level above. -/
theorem eventually_succ {P Q : Nat → Prop} (h : ∀ᶠ depth in Filter.atTop, P depth)
    (step : ∀ depth, P depth → P (depth + 1) → Q (depth + 1)) :
    ∀ᶠ depth in Filter.atTop, Q depth := by
  obtain ⟨n, hn⟩ := Filter.eventually_atTop.mp h
  refine Filter.eventually_atTop.mpr ⟨n + 1, fun depth hdepth => ?_⟩
  obtain ⟨depth, rfl⟩ := Nat.exists_eq_add_of_le' (Nat.lt_of_lt_of_le (Nat.succ_pos n) hdepth)
  have hle : n ≤ depth := Nat.le_of_succ_le_succ hdepth
  exact step depth (hn depth hle) (hn _ (Nat.le_succ_of_le hle))

/-- **The first member is matched like the second**, which is matched without slots: whatever is
compared with them, both matches end alike, and the slots stay. -/
def Store.MatchesAlike (s : Store) (S : TypeId → Prop) (i : Inference) (m c : TypeId)
    (depth : Nat) : Prop :=
  ∀ source, S source → ∀ cost cost',
    Attempt.Mirrors i (matchWithin s depth source .invariant m { i with cost := cost })
      (matchWithin s depth source .invariant c { cost := cost' })

section Level

variable {s : Store} {S : TypeId → Prop} {i : Inference} {m c source : TypeId} {depth : Nat}

theorem mirrors_elements {e e' : TypeId} {rank : Nat} (hm : s.form m = .array e rank)
    (hc : s.form c = .array e' rank) (h : s.MatchesAlike S i e e' depth)
    (hpart : ∀ t u, S t → u ∈ s.parts t → S u) (hsource : S source) (cost cost' : MatchCost) :
    Attempt.Mirrors i (matchElements s (matchWithin s depth) source m { i with cost := cost })
      (matchElements s (matchWithin s depth) source c { cost := cost' }) := by
  rw [matchElements, matchElements, TypeInfo.form_eq_array_iff.mp hm,
    TypeInfo.form_eq_array_iff.mp hc]
  cases hshape : (s.info source).shape with
  | arrayType e₀ rank₀ =>
    dsimp only
    split
    · refine h e₀ (hpart source e₀ hsource ?_) cost cost'
      exact Store.element_mem_parts (TypeInfo.form_eq_array_iff.mpr hshape)
    · exact .refused i
  | classType | interfaceType | structType | byRefType | parameter => exact .refused i

theorem matchElements_of_named {shape : Shape} {d : Option TypeId} {as : List TypeId}
    (hm : s.form m = .named shape d as) (recurse : Matcher) (i : Inference) :
    matchElements s recurse source m i = .refused := by
  obtain ⟨hshape, -, -, hkind⟩ := TypeInfo.form_eq_named_iff.mp hm
  rw [matchElements, hshape]
  obtain rfl | rfl | rfl := hkind <;> cases (s.info source).shape <;> rfl

theorem matchArguments_of_array (hs : s.Formed) {e : TypeId} {rank : Nat}
    (hm : s.form m = .array e rank) (recurse : Matcher) (i : Inference) :
    matchArguments s recurse source m i = .refused := by
  have hnone : s.genericDefinition m = none := by
    refine Option.eq_none_iff_forall_ne_some.mpr fun d hd => ?_
    refine (hs.genericDefinition_eq_some_iff.mp hd).2 (hs.unnamed fun _ _ _ hcon => ?_).2
    rw [hm] at hcon
    cases hcon
  rw [matchArguments, hnone]
  cases s.genericDefinition source <;> rfl

theorem Store.Formed.genericDefinition_of_head_eq (hs : s.Formed) (hhead : s.head c = s.head m)
    (hlen : (s.info c).arguments.length = (s.info m).arguments.length) :
    s.genericDefinition c = s.genericDefinition m := by
  refine Option.ext fun d => ?_
  rw [hs.genericDefinition_eq_some_iff, hs.genericDefinition_eq_some_iff, hhead]
  refine and_congr_right fun _ => not_congr ?_
  rw [← List.length_eq_zero_iff, ← List.length_eq_zero_iff, hlen]

theorem mirrors_arguments (hs : s.Formed) (hhead : s.head c = s.head m)
    (hargs : List.Forall₂ (fun a b => s.MatchesAlike S i a b depth) (s.info m).arguments
      (s.info c).arguments)
    (hpart : ∀ t u, S t → u ∈ s.parts t → S u) (hsource : S source) (cost cost' : MatchCost) :
    Attempt.Mirrors i (matchArguments s (matchWithin s depth) source m { i with cost := cost })
      (matchArguments s (matchWithin s depth) source c { cost := cost' }) := by
  have hlen := hargs.length_eq
  rw [matchArguments, matchArguments, hs.genericDefinition_of_head_eq hhead hlen.symm]
  cases s.genericDefinition source with
  | none => exact .refused i
  | some d =>
    cases s.genericDefinition m with
    | none => exact .refused i
    | some d' =>
      dsimp only
      rw [← hlen]
      split
      · refine .all_zip hargs (fun a ha x y hxy => hxy a (hpart source a hsource ?_)) cost cost'
        exact hs.mem_parts_of_mem_arguments ha
      · exact .refused i

/-- The arguments of a generic type match themselves. -/
theorem closes_arguments_self (hs : s.Formed) (hne : (s.info c).arguments ≠ [])
    (h : ∀ b ∈ (s.info c).arguments, ∀ cost,
      (matchWithin s depth b .invariant b { cost := cost }).Closes) (cost : MatchCost) :
    (matchArguments s (matchWithin s depth) c c { cost := cost }).Closes := by
  rw [matchArguments, hs.genericDefinition_eq_some_iff.mpr ⟨rfl, hne⟩]
  dsimp only
  rw [if_pos ⟨rfl, rfl⟩]
  refine .all (fun pair hpair cost => ?_) cost
  obtain ⟨k, hk⟩ := List.mem_iff_getElem?.mp hpair
  obtain ⟨ha, hb⟩ := List.getElem?_zip_eq_some.mp hk
  rw [Option.some.inj (ha.symm.trans hb)]
  exact h _ (List.mem_of_getElem? hb) cost

/-- A parameter without a slot is matched by itself alone. -/
theorem matchesAlike_of_foreign {p : GenericParameter} (hp : (s.info m).shape = .parameter p)
    (ho : i.owns p = false) : s.MatchesAlike S i m m (depth + 1) := by
  intro source _ cost cost'
  have hfirst : Inference.owns { i with cost := cost } p = false := ho
  rw [matchWithin, matchWithin, matchStep, matchStep, hp]
  dsimp only
  rw [matchParameter, matchParameter, if_neg (Bool.eq_false_iff.mp hfirst),
    if_neg (Bool.eq_false_iff.mp (Inference.owns_of_empty cost' p))]
  exact .guard i _ cost cost'

/-- Arrays are matched alike one level above their elements. -/
theorem matchesAlike_of_array (hs : s.Formed) (hpart : ∀ t u, S t → u ∈ s.parts t → S u)
    {e e' : TypeId} {rank : Nat} (hm : s.form m = .array e rank) (hc : s.form c = .array e' rank)
    (hself : S m → c = m) (halike : s.MatchesAlike S i e e' depth)
    (hclose : ∀ cost, (matchWithin s depth e' .invariant e' { cost := cost }).Closes) :
    s.MatchesAlike S i m c (depth + 1) := by
  intro source hsource cost cost'
  have hplain : ∀ {t u}, s.form t = .array u rank →
      (s.info t).isParameter = false ∧ (s.info t).isByRef = false := fun ht => by
    rw [TypeInfo.isParameter, TypeInfo.isByRef, TypeInfo.form_eq_array_iff.mp ht]
    exact ⟨rfl, rfl⟩
  rw [matchWithin_succ_of_plain (hplain hm).1 (hplain hm).2,
    matchWithin_succ_of_plain (hplain hc).1 (hplain hc).2,
    matchArguments_of_array hs hm, matchArguments_of_array hs hc]
  refine .shortcut ((mirrors_elements hm hc halike hpart hsource cost cost').orElse (.refused i))
    cost cost' (fun heq => ?_) (fun heq => ?_)
  · subst heq
    exact (hself hsource).symm
  · subst heq
    rw [matchElements, TypeInfo.form_eq_array_iff.mp hc]
    dsimp only
    rw [if_pos rfl]
    exact (hclose cost').orElse _

/-- References are matched alike one level above what they refer to. -/
theorem matchesAlike_of_reference (hpart : ∀ t u, S t → u ∈ s.parts t → S u) {e e' : TypeId}
    (hm : (s.info m).shape = .byRefType e) (hc : (s.info c).shape = .byRefType e')
    (hself : S m → c = m) (halike : s.MatchesAlike S i e e' depth)
    (hclose : ∀ cost, (matchWithin s depth e' .invariant e' { cost := cost }).Closes) :
    s.MatchesAlike S i m c (depth + 1) := by
  intro source hsource cost cost'
  rw [matchWithin, matchWithin, matchStep, matchStep, hm, hc]
  dsimp only
  refine .shortcut ?_ cost cost' (fun heq => ?_) (fun heq => ?_)
  · -- A source that is no reference is passed on as it is.
    cases hshape : (s.info source).shape with
    | byRefType e₀ =>
      refine halike e₀ (hpart source e₀ hsource ?_) cost cost'
      exact Store.target_mem_parts (TypeInfo.form_eq_reference_iff.mpr hshape)
    | classType | interfaceType | structType | arrayType | parameter =>
      exact halike source hsource cost cost'
  · subst heq
    exact (hself hsource).symm
  · subst heq
    rw [hc]
    exact hclose cost'

/-- Types of one definition are matched alike one level above their arguments. -/
theorem matchesAlike_of_named (hs : s.Formed) (hpart : ∀ t u, S t → u ∈ s.parts t → S u)
    {shape : Shape} {d d' : Option TypeId} {as bs : List TypeId} (hm : s.form m = .named shape d as)
    (hc : s.form c = .named shape d' bs) (hhead : s.head c = s.head m) (hself : S m → c = m)
    (halike : List.Forall₂ (fun a b => s.MatchesAlike S i a b depth) as bs)
    (hclose : ∀ b ∈ bs, ∀ cost, (matchWithin s depth b .invariant b { cost := cost }).Closes) :
    s.MatchesAlike S i m c (depth + 1) := by
  intro source hsource cost cost'
  obtain ⟨hpm, hrm⟩ := TypeInfo.plain_of_form_eq_named hm
  obtain ⟨hpc, hrc⟩ := TypeInfo.plain_of_form_eq_named hc
  have has := Store.arguments_of_named hm
  have hbs := Store.arguments_of_named hc
  rw [matchWithin_succ_of_plain hpm hrm, matchWithin_succ_of_plain hpc hrc,
    matchElements_of_named hm, matchElements_of_named hc]
  have harguments := mirrors_arguments hs hhead (has ▸ hbs ▸ halike) hpart hsource cost cost'
  have hmirror := Attempt.Mirrors.orElse (f := fun _ => .orElse _ fun _ => .refused)
    (g := fun _ => .orElse _ fun _ => .refused) (.refused i) (harguments.orElse (.refused i))
  by_cases hnil : bs = []
  · -- Without arguments nothing can be replaced.
    obtain rfl : as = [] := List.eq_nil_of_length_eq_zero (by rw [halike.length_eq, hnil]; rfl)
    obtain rfl := hs.eq_of_head_eq (hnil ▸ hc) hm hhead
    by_cases heq : source = c
    · rw [if_pos heq, if_pos heq]
      exact .accepted i cost cost'
    · rw [if_neg heq, if_neg heq]
      exact hmirror
  · refine .shortcut hmirror cost cost' (fun heq => ?_) (fun heq => ?_)
    · subst heq
      exact (hself hsource).symm
    · subst heq
      have hclose := closes_arguments_self hs (hbs ▸ hnil) (hbs ▸ hclose) cost'
      exact Attempt.Decided.orElse_closes (.inl rfl) (hclose.orElse _)

end Level

/-! ### All depths -/

section Depths

variable {s : Store} {S : TypeId → Prop} {i : Inference} {m c : TypeId}

/-- **A member is matched like its image**, if its parameters are matched like what stands for
them. -/
theorem eventually_matchesAlike {V : Valuation} (hs : s.Formed)
    (hpart : ∀ t u, S t → u ∈ s.parts t → S u)
    (hself : ∀ t u, S t → Image s V t u → u = t)
    (hleaf : ∀ x p y, (s.info x).shape = .parameter p → V x p y →
      ∀ᶠ depth in Filter.atTop, s.MatchesAlike S i x y depth)
    (h : Image s V m c) : ∀ᶠ depth in Filter.atTop, s.MatchesAlike S i m c depth := by
  -- A type matches itself, so what is compared first makes no difference.
  have hown : ∀ t, ∀ᶠ depth in Filter.atTop, ∀ cost,
      (matchWithin s depth t .invariant t { cost := cost }).Closes :=
    fun t => (Store.Accepts.self s t .invariant).eventually
  induction h with
  | parameter hp hv => exact hleaf _ _ _ hp hv
  | array hm hc he ih =>
    exact eventually_succ (ih.and (hown _)) fun depth ⟨halike, hclose⟩ _ =>
      matchesAlike_of_array hs hpart hm hc (fun h => hself _ _ h (.array hm hc he)) halike hclose
  | reference hm hc he ih =>
    exact eventually_succ (ih.and (hown _)) fun depth ⟨halike, hclose⟩ _ =>
      matchesAlike_of_reference hpart (TypeInfo.form_eq_reference_iff.mp hm)
        (TypeInfo.form_eq_reference_iff.mp hc) (fun h => hself _ _ h (.reference hm hc he)) halike
        hclose
  | @named m c shape d d' as bs hm hc hhead hargs ih =>
    have hlen := Image.length_eq hs hm hc hhead
    have halike : ∀ᶠ depth in Filter.atTop, ∀ pair ∈ as.zip bs,
        s.MatchesAlike S i pair.1 pair.2 depth := by
      refine Store.eventually_forall_mem fun pair hpair => ?_
      obtain ⟨k, hk⟩ := List.mem_iff_getElem?.mp hpair
      obtain ⟨ha, hb⟩ := List.getElem?_zip_eq_some.mp hk
      exact ih k _ _ ha hb
    exact eventually_succ (halike.and (Store.eventually_forall_mem fun b _ => hown b))
      fun depth ⟨halike, hclose⟩ _ => matchesAlike_of_named hs hpart hm hc hhead
        (fun h => hself _ _ h (.named hm hc hhead hargs))
        (List.forall₂_iff_zip.mpr ⟨hlen.symm, fun hpair => halike _ hpair⟩) hclose

/-- A member that avoids the slots is matched as if there were none. -/
theorem eventually_matchesAlike_self (hs : s.Formed) (havoid : s.Avoids i.owns m) :
    ∀ᶠ depth in Filter.atTop, s.MatchesAlike (fun _ => True) i m m depth := by
  refine eventually_matchesAlike (V := fun x p y => i.owns p = false ∧ y = x) hs
    (fun _ _ _ _ => trivial) (fun t u _ h => h.eq_self hs fun _ _ _ _ _ hv => hv.2)
    (fun x p y hp hv => ?_) (.self hs fun x p hx hp => ⟨havoid x p hx hp, rfl⟩)
  obtain ⟨ho, rfl⟩ := hv
  exact eventually_succ (Filter.eventually_ge_atTop 0) fun depth _ _ =>
    matchesAlike_of_foreign hp ho

/-- **A slot that holds a type is matched like that type.** -/
theorem eventually_matchesAlike_bound (hs : s.Formed) {x b : TypeId} {p : GenericParameter}
    (hp : (s.info x).shape = .parameter p) (ho : i.owns p) (hb : i.bound? p = some b)
    (havoid : s.Avoids i.owns b) : ∀ᶠ depth in Filter.atTop, s.MatchesAlike S i x b depth := by
  refine eventually_succ ((eventually_matchesAlike_self hs havoid).and
    ((Store.eventually_decided hs b).and (Store.Accepts.self s b .invariant).eventually))
    fun depth hdepth _ source _ cost cost' => ?_
  obtain ⟨halike, hdecided, hclose⟩ := hdepth
  -- A slot is compared with what it holds one level below; there the closed match has ended
  -- already.
  have hends : matchWithin s depth source .invariant b { cost := cost' } ≠ .unfinished := by
    obtain h | ⟨_, h⟩ := hdecided source cost' <;> rw [h] <;> exact nofun
  have ho' : Inference.owns { i with cost := cost } p := ho
  have hb' : Inference.bound? { i with cost := cost } p = some b := hb
  rw [matchWithin_of_le (Nat.le_succ depth) hends, matchWithin, matchStep, hp]
  dsimp only
  rw [matchParameter, if_pos ho', hb']
  dsimp only
  split
  case isTrue heq =>
    subst heq
    exact .inr ⟨.accepted i cost, hclose cost'⟩
  case isFalse => exact (halike source trivial cost cost').retry

/-- **A member whose parameters are bound is matched like what they make of it.** -/
theorem eventually_matchesAlike_of_bound (hs : s.Formed) (hi : i.All (s.Avoids i.owns))
    (h : Image s i.Sends m c) :
    ∀ᶠ depth in Filter.atTop, s.MatchesAlike (s.Avoids i.owns) i m c depth := by
  refine eventually_matchesAlike hs (fun _ _ ht hu => ht.part hu)
    (fun _ _ ht h => Inference.eq_of_image_of_avoids hs ht h) (fun x p y hp hv => ?_) h
  by_cases ho : i.owns p
  · have hb := (Inference.sends_of_owns ho).mp hv
    exact eventually_matchesAlike_bound hs hp ho hb (hi p y ho hb)
  · rw [Bool.not_eq_true] at ho
    obtain rfl := (Inference.sends_of_not_owns ho).mp hv
    exact eventually_succ (Filter.eventually_ge_atTop 0) fun depth _ _ =>
      matchesAlike_of_foreign hp ho

end Depths

/-! ### Constraints -/

section Constraint

variable {s : Store} {i : Inference} {m c source : TypeId} {depth : Nat}

/-- A plain member is first compared invariantly, whatever the variance. -/
theorem matchWithin_eq_orElse (hp : (s.info m).isParameter = false)
    (hr : (s.info m).isByRef = false) (v : Variance) (i : Inference) :
    matchWithin s (depth + 1) source v m i =
      (matchWithin s (depth + 1) source .invariant m i).orElse fun _ =>
        matchVariance s (matchWithin s depth) source v m i := by
  rw [matchWithin_succ_of_plain hp hr, matchWithin_succ_of_plain hp hr]
  split
  · rfl
  · cases matchElements s (matchWithin s depth) source m i with
    | accepted | unfinished => rfl
    | refused => cases matchArguments s (matchWithin s depth) source m i <;> rfl

/-- What ends invariantly leaves the decision to the variance. -/
theorem stays_of_variance {v : Variance} {cost : MatchCost} (hp : (s.info m).isParameter = false)
    (hr : (s.info m).isByRef = false)
    (hends : (matchWithin s (depth + 1) source .invariant m { i with cost := cost }).Ends i)
    (h : (matchVariance s (matchWithin s depth) source v m { i with cost := cost }).Stays i) :
    (matchWithin s (depth + 1) source v m { i with cost := cost }).Stays i := by
  rw [matchWithin_eq_orElse hp hr]
  exact hends.orElse_stays h

/-- No interface is nullable. -/
theorem widenToNullable_of_isInterface (hs : s.WellFormed) (hm : (s.info m).isInterface)
    (recurse : Matcher) (i : Inference) : widenToNullable s recurse source m i = .refused := by
  rw [widenToNullable, hs.nullableUnderlying_of_isInterface hm]

/-- **What flows into an interface** has a base, or is one itself, that is the interface or declares
it. -/
theorem exists_walk_of_accepts (hs : s.WellFormed) (hc : (s.info c).isInterface)
    (h : s.Accepts source .contravariant c) :
    ∃ a f, Relation.ReflTransGen (fun a b => baseStep s a = some b) source a ∧
      (f = a ∨ f ∈ s.allInterfaces a) ∧ s.Accepts f .invariant c := by
  have haccepts : ∀ {depth t v cost j}, matchWithin s depth t v c { cost := cost } = .accepted j →
      s.Accepts t v c := fun {depth _ _ cost j} h =>
    Store.accepts_of_closes depth cost ⟨j.cost, by rw [h, ← (matchWithin_extends h).eq_of_empty]⟩
  obtain ⟨hp, hr⟩ := TypeInfo.plain_of_form_eq_named (TypeInfo.form_of_isInterface hc)
  obtain ⟨depth, j, h⟩ := h
  rw [matches_eq_some_iff] at h
  -- The descent follows the steps to a base; other ways are decided where they are met.
  induction depth generalizing source j with
  | zero => cases h
  | succ depth ih =>
    rw [matchWithin_eq_orElse hp hr] at h
    obtain h | ⟨-, h⟩ := Attempt.orElse_eq_accepted_iff.mp h
    · exact ⟨source, source, .refl, .inl rfl, haccepts h⟩
    rw [matchVariance, widen, widenToNullable_of_isInterface hs hc] at h
    obtain h | ⟨-, h⟩ := Attempt.orElse_eq_accepted_iff.mp h
    · rw [widenToInterface, if_pos hc] at h
      obtain ⟨f, hf, h⟩ := Attempt.exists_of_any_eq_accepted h
      obtain ⟨k, hk, -⟩ := Attempt.map_eq_accepted_iff.mp h
      exact ⟨source, f, .refl, .inr hf, haccepts hk⟩
    · obtain ⟨-, ⟨⟩⟩ | ⟨-, h⟩ := Attempt.orElse_eq_accepted_iff.mp h
      cases hb : baseStep s source with
      | none =>
        rw [widenToBase, hb] at h
        cases h
      | some b =>
        rw [widenToBase, hb] at h
        obtain ⟨k, hk, -⟩ := Attempt.map_eq_accepted_iff.mp h
        obtain ⟨a, f, hwalk, hrest⟩ := ih k hk
        exact ⟨a, f, .head hb hwalk, hrest⟩

variable (hs : s.WellFormed) (hsc : s.Scoped)
  (halike : ∀ᶠ depth in Filter.atTop, s.MatchesAlike (s.Avoids i.owns) i m c depth)

include hs hsc halike

/-- **What flows into a closed interface flows into the open one**, if both are matched alike. -/
theorem eventually_stays_of_accepts (hm : (s.info m).isInterface) (hc : (s.info c).isInterface)
    (hsource : s.IsClean i.owns source) (h : s.Accepts source .contravariant c) :
    ∀ᶠ depth in Filter.atTop, ∀ cost,
      (matchWithin s depth source .contravariant m { i with cost := cost }).Stays i := by
  have hclean : s.Inherited (s.IsClean i.owns) := Store.inherited_isClean hs hsc
  obtain ⟨hp, hr⟩ := TypeInfo.plain_of_form_eq_named (TypeInfo.form_of_isInterface hm)
  obtain ⟨a, f, hwalk, hf, haccepts⟩ := exists_walk_of_accepts hs hc h
  clear h
  have hends : ∀ {depth t cost}, s.IsClean i.owns t → s.MatchesAlike (s.Avoids i.owns) i m c depth →
      (matchWithin s depth t .invariant m { i with cost := cost }).Ends i := fun ht h =>
    (h _ ht.avoids _ {}).ends
  have hinterfaces : ∀ {depth t cost}, s.IsClean i.owns t →
      s.MatchesAlike (s.Avoids i.owns) i m c depth → ∀ f ∈ s.allInterfaces t,
        ((matchWithin s depth f .invariant m { i with cost := cost }).map
          (Inference.mapCost (MatchCost.addInterfaceStep s f))).Ends i := fun ht h f hf =>
    (hends (hclean.upward (Store.upward_of_mem_allInterfaces hf) ht) h).map _
  -- The walk is followed from its end. Up to there other ways may be tried first: they end, and if
  -- one of them succeeds the slots stay as well.
  induction hwalk using Relation.ReflTransGen.head_induction_on with
  | refl =>
    refine eventually_succ (halike.and haccepts.eventually) fun depth hdepth hnext cost => ?_
    obtain rfl | hf := hf
    · rw [matchWithin_eq_orElse hp hr]
      exact ((hnext.1 f hsource.avoids cost cost).stays (hnext.2 cost)).orElse _
    · refine stays_of_variance hp hr (hends hsource hnext.1) ?_
      rw [matchVariance, widen, widenToInterface, if_pos hm]
      refine Attempt.Stays.orElse (.any (hinterfaces hsource hdepth.1) hf (.map ?_ _)) _
      have hf' := hclean.upward (Store.upward_of_mem_allInterfaces hf) hsource
      exact (hdepth.1 f hf'.avoids cost cost).stays (hdepth.2 cost)
  | @head t b hb _ ih =>
    refine eventually_succ (halike.and (ih (hclean.baseStep hb hsource)))
      fun depth hdepth hnext cost => ?_
    refine stays_of_variance hp hr (hends hsource hnext.1) ?_
    rw [matchVariance, widen, widenToNullable_of_isInterface hs hm, widenToInterface, if_pos hm]
    refine (Attempt.Ends.any (hinterfaces hsource hdepth.1)).orElse_stays ?_
    refine Attempt.Ends.orElse_stays (.inl rfl) ?_
    rw [widenToBase, hb]
    exact (hdepth.2 cost).map _

omit halike in
/-- **A constraint that a type has once its parameters are replaced** is found to hold while they
stand for what is bound to them. -/
theorem eventually_matchConstraint (hi : i.All (s.Avoids i.owns)) (himage : Image s i.Sends m c)
    (hsource : s.IsClean i.owns source) (h : s.Meets source m c) :
    ∀ᶠ depth in Filter.atTop, ∀ cost,
      (matchConstraint s (matchWithin s depth) source m { i with cost := cost }).Stays i := by
  have halike := eventually_matchesAlike_of_bound hs.toFormed hi himage
  cases h with
  | interface hm h =>
    filter_upwards [eventually_stays_of_accepts hs hsc halike hm (himage.isInterface hm) hsource h]
      with depth hdepth cost
    rw [matchConstraint, if_pos hm]
    exact hdepth cost
  | ancestor hm hc =>
    filter_upwards [halike, (Store.Accepts.self s c .invariant).eventually]
      with depth hdepth hself cost
    rw [matchConstraint, if_neg (Bool.eq_false_iff.mp hm)]
    have havoid : ∀ a ∈ s.ancestors source, s.Avoids i.owns a := fun a ha =>
      ((Store.inherited_isClean hs hsc).upward (Store.upward_of_mem_ancestors ha) hsource).avoids
    exact .any (fun a ha => (hdepth a (havoid a ha) cost cost).ends) hc
      ((hdepth c (havoid c hc) cost cost).stays (hself cost))

end Constraint

end CallSite
