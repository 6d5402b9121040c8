import CallSite.Match.Search
import CallSite.Proofs.Match.Growth
import CallSite.Proofs.Match.Lockstep
import CallSite.Type.Initial

/-!
# A search is a transaction

`CallSite.Store.search` tries one way after another on one shared inference. It is a transaction
all the same: a search that fails leaves the inference as it found it, whatever was bound and
counted on the way, and a search that succeeds only adds to it.

The argument compares the search with the match of `CallSite.matchWithin`, which is a function of
the inference it begins with and so has nothing to take back.

* `Search.Follows` – a search succeeds with the result of an attempt and fails where it is refused,
  but may leave anything behind when it fails.
* `Search.Reports` – it also leaves the inference as it was. `Search.speculate` makes a search that
  reports of one that follows (`CallSite.Search.Follows.speculate`).
* `CallSite.search_eq_report` – the search reports the match.
* `CallSite.search_transactional` – what this says of the search alone.
-/

namespace CallSite

/-- What is seen of an attempt: whether it succeeded, and the inference after it, which is the one
before it where the attempt is refused. -/
def Attempt.report (i : Inference) : Attempt Inference → Option (Bool × Inference)
  | .accepted j => some (true, j)
  | .refused => some (false, i)
  | .unfinished => none

namespace Search

/-! ### What the ways to combine searches do -/

theorem speculate_apply (x : Search) (i : Inference) :
    speculate x i = (x i).map fun r => (r.1, if r.1 then r.2 else i) := by
  simp only [speculate, bind, StateT.bind, get, getThe, MonadStateOf.get, StateT.get, pure,
    Option.bind_some]
  rcases x i with _ | ⟨_ | _, j⟩ <;> rfl

theorem orElse_apply (x y : Search) (i : Inference) :
    x.orElse y i = (x i).bind fun r => if r.1 then some (true, r.2) else y r.2 := by
  simp only [orElse, bind, StateT.bind]
  rcases x i with _ | ⟨_ | _, j⟩ <;> rfl

theorem counting_apply (change : MatchCost → MatchCost) (x : Search) (i : Inference) :
    counting change x i = (x i).map fun r => (r.1, if r.1 then r.2.mapCost change else r.2) := by
  simp only [counting, bind, StateT.bind]
  rcases x i with _ | ⟨_ | _, j⟩ <;> rfl

theorem anyM_cons_apply {β : Type} (f : β → Search) (b : β) (items : List β) (i : Inference) :
    ((b :: items).anyM f) i =
      (f b i).bind fun r => if r.1 then some (true, r.2) else (items.anyM f) r.2 := by
  simp only [List.anyM, bind, StateT.bind]
  rcases f b i with _ | ⟨_ | _, j⟩ <;> rfl

theorem allM_cons_apply {β : Type} (f : β → Search) (b : β) (items : List β) (i : Inference) :
    ((b :: items).allM f) i =
      (f b i).bind fun r => if r.1 then (items.allM f) r.2 else some (false, r.2) := by
  simp only [List.allM, bind, StateT.bind]
  rcases f b i with _ | ⟨_ | _, j⟩ <;> rfl

/-! ### Following and reporting -/

/-- **A search follows an attempt**: it succeeds with its result, fails where it is refused, and is
cut off where it is unfinished. What a failure leaves behind is left open. -/
def Follows (x : Search) (a : Inference → Attempt Inference) : Prop :=
  ∀ i, match a i with
    | .accepted j => x i = some (true, j)
    | .refused => ∃ j, x i = some (false, j)
    | .unfinished => x i = none

/-- **A search reports an attempt**: it follows it, and a failure leaves nothing behind. -/
def Reports (x : Search) (a : Inference → Attempt Inference) : Prop :=
  ∀ i, x i = (a i).report i

variable {x y : Search} {a b : Inference → Attempt Inference}

theorem Reports.follows (h : Reports x a) : Follows x a := by
  intro i
  have hi := h i
  cases ha : a i with
  | accepted j => rw [hi, ha]; rfl
  | refused => exact ⟨i, by rw [hi, ha]; rfl⟩
  | unfinished => rw [hi, ha]; rfl

/-- What is true of one inference: an attempt that follows there is taken back where it fails. -/
theorem speculate_eq_report {r : Attempt Inference} {i : Inference}
    (h : match r with
      | .accepted j => x i = some (true, j)
      | .refused => ∃ j, x i = some (false, j)
      | .unfinished => x i = none) : speculate x i = r.report i := by
  rw [speculate_apply]
  cases r with
  | accepted j =>
    rw [show x i = _ from h]
    rfl
  | refused =>
    obtain ⟨j, hj⟩ := h
    rw [hj]
    rfl
  | unfinished =>
    rw [show x i = _ from h]
    rfl

/-- **Speculation takes back** what a failed attempt leaves behind. -/
theorem Follows.speculate (h : Follows x a) : Reports (speculate x) a :=
  fun i => speculate_eq_report (h i)

theorem reports_refused : Reports (pure false) fun _ => .refused :=
  fun _ => rfl

theorem Reports.orElse (hx : Reports x a) (hy : Reports y b) :
    Reports (x.orElse y) fun i => (a i).orElse fun _ => b i := by
  intro i
  rw [orElse_apply, hx i]
  dsimp only
  cases a i with
  | accepted j => rfl
  | refused => exact hy i
  | unfinished => rfl

theorem counting_eq_report {r : Attempt Inference} {i : Inference} (hx : x i = r.report i)
    (change : MatchCost → MatchCost) :
    x.counting change i = (r.map (Inference.mapCost change)).report i := by
  rw [counting_apply, hx]
  cases r <;> rfl

theorem Reports.counting (hx : Reports x a) (change : MatchCost → MatchCost) :
    Reports (x.counting change) fun i => (a i).map (Inference.mapCost change) :=
  fun i => counting_eq_report (hx i) change

theorem reports_anyM {β : Type} {f : β → Search} {g : β → Inference → Attempt Inference}
    (h : ∀ b, Reports (f b) (g b)) (items : List β) :
    Reports (items.anyM f) (Attempt.any g items) := by
  induction items with
  | nil => exact fun _ => rfl
  | cons b items ih =>
    intro i
    rw [anyM_cons_apply, h b i, Attempt.any]
    cases g b i with
    | accepted j => rfl
    | refused => exact ih i
    | unfinished => rfl

theorem follows_allM {β : Type} {f : β → Search} {g : β → Inference → Attempt Inference}
    (h : ∀ b, Follows (f b) (g b)) (items : List β) :
    Follows (items.allM f) (Attempt.all g items) := by
  induction items with
  | nil => exact fun _ => rfl
  | cons b items ih =>
    intro i
    have hb := h b i
    rw [allM_cons_apply, Attempt.all]
    cases hg : g b i with
    | accepted j =>
      rw [hg] at hb
      rw [hb]
      exact ih j
    | refused =>
      rw [hg] at hb
      obtain ⟨j, hj⟩ := hb
      exact ⟨j, by rw [hj]; rfl⟩
    | unfinished =>
      rw [hg] at hb
      change _ = _
      rw [hb]
      rfl

end Search

/-! ### One level of a search -/

section Level

open Search

variable {s : Store} {f : Searcher} {r : Matcher}
  (h : ∀ source v member, Reports (f source v member) (r source v member))

include h

theorem reports_searchConstraint (source c : TypeId) :
    Reports (searchConstraint s f source c) (matchConstraint s r source c) := by
  unfold searchConstraint
  split
  case isTrue hc =>
    intro i
    rw [matchConstraint, if_pos hc]
    exact h _ _ _ i
  case isFalse hc =>
    intro i
    rw [matchConstraint, if_neg hc]
    exact reports_anyM (fun t => (h t .invariant c).follows.speculate) _ i

theorem follows_searchConstraints (source : TypeId) (constraints : List TypeId) :
    Follows (searchConstraints s f source constraints)
      (matchConstraints s r source constraints) := by
  intro i
  have hall := follows_allM (fun c => (reports_searchConstraint (s := s) h source c).follows)
    constraints i
  have hrun : searchConstraints s f source constraints i =
      ((constraints.allM (searchConstraint s f source)) i).map fun q =>
        (q.1, { q.2 with cost := i.cost }) := by
    simp only [searchConstraints, bind, StateT.bind, get, getThe, MonadStateOf.get, StateT.get,
      pure, Option.bind_some]
    rcases (constraints.allM (searchConstraint s f source)) i with _ | ⟨b, j⟩ <;> rfl
  rw [hrun, matchConstraints]
  cases ha : Attempt.all (matchConstraint s r source) constraints i with
  | accepted j =>
    rw [ha] at hall
    change _ = _
    rw [hall]
    rfl
  | refused =>
    rw [ha] at hall
    obtain ⟨j, hj⟩ := hall
    exact ⟨_, by rw [hj]; rfl⟩
  | unfinished =>
    rw [ha] at hall
    change _ = _
    rw [hall]
    rfl

omit h in
/-- An empty slot that exists is bound, and the result is what is put there. -/
theorem Inference.bind_eq_put {i : Inference} {p : GenericParameter} (t : TypeId)
    (howns : i.owns p) (hnone : i.bound? p = none) : i.bind p t = (.bound, i.put p t) := by
  have hslots : ∀ slots : Slots, slots.owns p → slots.get? p.position = none →
      slots.bind p.position t = (.bound, slots.put p.position t) := by
    intro slots ho hn
    unfold Slots.owns Slots.arity at ho
    simp only [Bool.and_eq_true, decide_eq_true_eq] at ho
    unfold Slots.get? at hn
    unfold Slots.bind
    rw [List.getElem?_eq_getElem ho.2] at hn ⊢
    cases hg : slots.bound[p.position] with
    | none => rfl
    | some u => simp [hg] at hn
  unfold Inference.bind Inference.put
  unfold Inference.owns at howns
  unfold Inference.bound? at hnone
  cases hp : p.owner with
  | type =>
    rw [hp] at howns hnone
    dsimp only
    rw [hslots _ howns hnone]
  | method =>
    rw [hp] at howns hnone
    dsimp only
    rw [hslots _ howns hnone]

omit h in
theorem searchParameter_apply (source : TypeId) (v : Variance) (member : TypeId)
    (p : GenericParameter) (i : Inference) : searchParameter s f source v member p i =
      (if i.owns p then
        match i.bound? p with
        | some bound =>
          if bound = source then pure true
          else (speculate (f source v bound)).orElse (speculate (f source v.inverse bound))
        | none =>
          if satisfiesFlags s source p.flags then
            (speculate (searchBinding s f source p)).counting (MatchCost.addConstraints s p)
          else pure false
      else pure (decide (source = member)) : Search) i := rfl

omit h in
/-- A search that binds an empty slot goes on to the constraints of its parameter. -/
theorem searchBinding_apply (source : TypeId) {p : GenericParameter} {i : Inference}
    (howns : i.owns p) (hnone : i.bound? p = none) :
    searchBinding s f source p i = searchConstraints s f source p.constraints (i.put p source) := by
  change (if (i.bind p source).1 ≠ Binding.bound then pure false
    else searchConstraints s f source p.constraints : Search) (i.bind p source).2 = _
  rw [Inference.bind_eq_put source howns hnone]
  rfl

theorem reports_searchParameter (source : TypeId) (v : Variance) (member : TypeId)
    (p : GenericParameter) :
    Reports (searchParameter s f source v member p) (matchParameter s r source v member p) := by
  intro i
  rw [searchParameter_apply]
  unfold matchParameter
  by_cases howns : i.owns p
  · rw [if_pos howns, if_pos howns]
    cases hb : i.bound? p with
    | some bound =>
      dsimp only
      split
      · rfl
      · exact ((h source v bound).follows.speculate.orElse
          (h source v.inverse bound).follows.speculate) i
    | none =>
      dsimp only
      split
      · -- The slot is empty at `i`, where the attempt is compared, and only there.
        have hcons := follows_searchConstraints (s := s) h source p.constraints (i.put p source)
        rw [← searchBinding_apply (s := s) (f := f) source howns hb] at hcons
        exact counting_eq_report (speculate_eq_report hcons) _
      · rfl
  · rw [if_neg howns, if_neg howns]
    unfold Attempt.guard
    by_cases heq : source = member
    · rw [if_pos (decide_eq_true heq), decide_eq_true heq]
      rfl
    · rw [if_neg (by simp [heq]), decide_eq_false heq]
      rfl

theorem reports_searchElements (source member : TypeId) :
    Reports (searchElements s f source member) (matchElements s r source member) := by
  intro i
  unfold searchElements matchElements
  cases (s.info source).shape with
  | arrayType e rank =>
    cases (s.info member).shape with
    | arrayType e' rank' =>
      dsimp only
      split
      · exact (h e .invariant e').follows.speculate i
      · rfl
    | _ => rfl
  | _ => rfl

theorem reports_searchArguments (source member : TypeId) :
    Reports (searchArguments s f source member) (matchArguments s r source member) := by
  intro i
  unfold searchArguments matchArguments
  cases s.genericDefinition source with
  | none => rfl
  | some d =>
    cases s.genericDefinition member with
    | none => rfl
    | some d' =>
      dsimp only
      split
      · exact (follows_allM (fun pair : TypeId × TypeId =>
          (h pair.1 .invariant pair.2).follows) _).speculate i
      · rfl

omit h in
theorem reports_searchInterfaces (t : TypeId) {attempt : TypeId → Search}
    {g : TypeId → Inference → Attempt Inference} (hg : ∀ u, Reports (attempt u) (g u)) :
    Reports (searchInterfaces s t attempt)
      (Attempt.any (fun u i => (g u i).map (Inference.mapCost (MatchCost.addInterfaceStep s u)))
        (s.allInterfaces t)) :=
  reports_anyM (fun u => (hg u).follows.speculate.counting _) _

omit h in
theorem reports_searchBase (t : TypeId) {attempt : TypeId → Search}
    {g : TypeId → Inference → Attempt Inference} (hg : ∀ u, Reports (attempt u) (g u)) :
    Reports (searchBase s t attempt) fun i => match baseStep s t with
      | some b => (g b i).map (Inference.mapCost (MatchCost.addBaseStep s b))
      | none => .refused := by
  intro i
  unfold searchBase
  cases baseStep s t with
  | none => rfl
  | some b => exact (hg b).follows.speculate.counting _ i

omit h in
theorem reports_searchNullable (nullable plain : TypeId) {attempt : TypeId → Search}
    {g : TypeId → Inference → Attempt Inference} (hg : ∀ u, Reports (attempt u) (g u)) :
    Reports (searchNullable s nullable plain attempt) fun i =>
      match s.nullableUnderlying nullable with
      | some u =>
        if (s.info plain).isValueType && (s.nullableUnderlying plain).isNone then g u i
        else .refused
      | none => .refused := by
  intro i
  unfold searchNullable
  cases s.nullableUnderlying nullable with
  | none => rfl
  | some u =>
    dsimp only
    split
    · exact (hg u).follows.speculate i
    · rfl

theorem reports_searchWider (source member : TypeId) :
    Reports (searchWider s f source member) (widen s r source member) := by
  have hrun : searchWider s f source member =
      (if (s.info member).isInterface then
        searchInterfaces s source fun u => f u .invariant member
      else pure false).orElse
        ((searchNullable s member source fun u => f source .invariant u).orElse
          (searchBase s source fun u => f u .contravariant member)) := by
    unfold searchWider
    split <;> rfl
  rw [hrun]
  refine Reports.orElse (a := widenToInterface s r source member) ?_
    ((reports_searchNullable member source fun u => h source .invariant u).orElse
      (reports_searchBase source fun u => h u .contravariant member))
  intro i
  unfold widenToInterface
  split
  · exact reports_searchInterfaces source (fun u => h u .invariant member) i
  · rfl

theorem reports_searchNarrower (source member : TypeId) :
    Reports (searchNarrower s f source member) (narrow s r source member) := by
  have hrun : searchNarrower s f source member =
      (if (s.info source).isInterface then
        searchInterfaces s member fun u => f source .invariant u
      else pure false).orElse
        ((searchNullable s source member fun u => f u .invariant member).orElse
          (searchBase s member fun u => f source .covariant u)) := by
    unfold searchNarrower
    split <;> rfl
  rw [hrun]
  refine Reports.orElse (a := narrowFromInterface s r source member) ?_
    ((reports_searchNullable source member fun u => h u .invariant member).orElse
      (reports_searchBase member fun u => h source .covariant u))
  intro i
  unfold narrowFromInterface
  split
  · exact reports_searchInterfaces member (fun u => h source .invariant u) i
  · rfl

theorem reports_searchVariance (source : TypeId) (v : Variance) (member : TypeId) :
    Reports (searchVariance s f source v member) (matchVariance s r source v member) := by
  cases v with
  | invariant => exact reports_refused
  | covariant => exact reports_searchNarrower h source member
  | contravariant => exact reports_searchWider h source member

/-- **One level of a search reports one level of a match**, if this is so one level below. -/
theorem reports_searchStep (source : TypeId) (v : Variance) (member : TypeId) :
    Reports (searchStep s f source v member) (matchStep s r source v member) := by
  intro i
  unfold searchStep matchStep
  cases (s.info member).shape with
  | parameter p => exact reports_searchParameter h source v member p i
  | byRefType e =>
    dsimp only
    split
    · rfl
    · cases (s.info source).shape with
      | byRefType e' => exact (h e' .invariant e).follows.speculate i
      | _ => exact h source v e i
  | _ =>
    dsimp only
    split
    · rfl
    · exact ((reports_searchElements h source member).orElse
        ((reports_searchArguments h source member).orElse
          (reports_searchVariance h source v member))) i

end Level

/-! ### The whole search -/

/-- **The search reports the match**: it succeeds with its result, and where the match is refused
it leaves the inference as it was. -/
theorem search_eq_report (s : Store) (depth : Nat) (source : TypeId) (v : Variance)
    (member : TypeId) (i : Inference) :
    s.search depth source v member i = (matchWithin s depth source v member i).report i := by
  induction depth generalizing source v member i with
  | zero => rfl
  | succ depth ih =>
    exact reports_searchStep (fun source v member i => ih source v member i) source v member i

/-- A search succeeds with what a match is accepted with. -/
theorem matches_eq_some_iff {s : Store} {depth : Nat} {source member : TypeId} {v : Variance}
    {i j : Inference} :
    s.matches depth source v member i = some j ↔
      matchWithin s depth source v member i = .accepted j := by
  rw [Store.matches, search_eq_report]
  cases matchWithin s depth source v member i <;> simp [Attempt.report]

theorem search_eq_true_iff {s : Store} {depth : Nat} {source member : TypeId} {v : Variance}
    {i j : Inference} :
    s.search depth source v member i = some (true, j) ↔
      matchWithin s depth source v member i = .accepted j := by
  rw [search_eq_report]
  cases matchWithin s depth source v member i <;> simp [Attempt.report]

theorem search_eq_false_iff {s : Store} {depth : Nat} {source member : TypeId} {v : Variance}
    {i j : Inference} :
    s.search depth source v member i = some (false, j) ↔
      matchWithin s depth source v member i = .refused ∧ j = i := by
  rw [search_eq_report]
  cases matchWithin s depth source v member i <;> simp [Attempt.report, eq_comm]

/-! ### The transaction -/

/-- **Only the cost differs.** What a search finds and what it adds to the cost do not depend on
the cost that it begins with. -/
theorem search_withCost {s : Store} {depth : Nat} {source member : TypeId} {v : Variance}
    {i j : Inference} {verdict : Bool}
    (h : s.search depth source v member i = some (verdict, j)) :
    ∃ added : MatchCost, j.cost = i.cost + added ∧
      ∀ cost, s.search depth source v member { i with cost := cost } =
        some (verdict, { j with cost := cost + added }) := by
  -- Both runs are compared with the one that counts from zero.
  have hfrom : ∀ cost, matchWithin s depth source v member { i with cost := cost } =
      (matchWithin s depth source v member { i with cost := {} }).map
        (Inference.addCost cost) := fun cost => by
    rw [← matchWithin_addCost]
    rfl
  have hi := hfrom i.cost
  simp only [search_eq_report] at h ⊢
  change matchWithin s depth source v member i = _ at hi
  rw [hi] at h
  cases hz : matchWithin s depth source v member { i with cost := {} } with
  | unfinished =>
    rw [hz] at h
    cases h
  | refused =>
    rw [hz] at h
    cases h
    refine ⟨{}, rfl, fun cost => ?_⟩
    rw [hfrom, hz]
    rfl
  | accepted k =>
    rw [hz] at h
    cases h
    refine ⟨k.cost, rfl, fun cost => ?_⟩
    rw [hfrom, hz]
    rfl

/-- **A search is a transaction.** One that fails leaves the inference as it was, bindings and cost
alike. One that succeeds keeps owners, arities and every binding, and adds to the cost. The verdict,
the bindings and what is added to the cost are the same from every cost. -/
theorem search_transactional {s : Store} {depth : Nat} {source member : TypeId} {v : Variance}
    {i j : Inference} {verdict : Bool}
    (h : s.search depth source v member i = some (verdict, j)) :
    (verdict = false → j = i) ∧ (verdict = true → i.Extends j) ∧
      ∃ added : MatchCost, j.cost = i.cost + added ∧
        ∀ cost, s.search depth source v member { i with cost := cost } =
          some (verdict, { j with cost := cost + added }) := by
  refine ⟨?_, ?_, search_withCost h⟩
  · rintro rfl
    exact (search_eq_false_iff.mp h).2
  · rintro rfl
    exact matchWithin_extends (search_eq_true_iff.mp h)

/-- Texts can be compared with texts: the slot of `IEquatable` is bound by one step to an interface,
on top of whatever was counted. -/
theorem search_transactional_string :
    ∃ i j : Inference,
      Store.initial.search 4 Core.string .contravariant Core.equatable i = some (true, j) ∧
      i ≠ j ∧ i.Extends j ∧
      ∃ added : MatchCost, j.cost = i.cost + added ∧
        ∀ cost, Store.initial.search 4 Core.string .contravariant Core.equatable
          { i with cost := cost } = some (true, { j with cost := cost + added }) := by
  let i : Inference := { typeSlots := Slots.ofArity (.type Core.equatable) 1 }
  let j : Inference :=
    { typeSlots := { owner := some (.type Core.equatable), bound := [some Core.string] }
      cost := { totalInterfaces := 1, genericInterfaces := 1 } }
  have h : Store.initial.search 4 Core.string .contravariant Core.equatable i =
      some (true, j) := by decide +kernel
  obtain ⟨-, hextends, hcost⟩ := search_transactional h
  exact ⟨i, j, h, by decide, hextends rfl, hcost⟩

end CallSite
