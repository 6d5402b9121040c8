import CallSite.Proofs.Match.Constraint
import CallSite.Proofs.Resolve.Evaluation

/-!
# Inferred types respect constraints

A candidate is accepted with a type for every slot, and each of these types has what its parameter
asks for: the special constraints, and the constraints with all inferred types put in place. That
holds for types of a query which the candidate and the queried definition have no part in
(`CallSite.Store.IsForeign`), in every reachable store where hierarchies are scoped, references
stand outside, and methods have one list of parameters each.
-/

namespace CallSite

/-- **A type from outside**: it is held and no reference, and mentions no parameter of the queried
definition or of a candidate that is an open method. -/
structure Store.IsForeign (s : Store) (queried : TypeId) (member : Member) (u : TypeId) : Prop where
  /-- It is held. -/
  holds : s.Holds u
  /-- It is no reference. -/
  not_byRef : (s.info u).isByRef = false
  /-- It mentions other parameters only. -/
  owner_ne : ∀ q p, s.Mentions u q → (s.info q).shape = .parameter p →
    p.owner ≠ .type queried ∧ member.methodOwner ≠ some p.owner

/-- What an evaluation begins with: empty slots for the queried definition and for the candidate. -/
def evaluationStart (s : Store) (queried : TypeId) (member : Member) : Inferred :=
  { typeSlots := Resolver.typeSlots s queried, methodSlots := methodSlots member }

section Start

variable {s : Store} {queried : TypeId} {member : Member}

theorem get?_typeSlots (k : Nat) : (Resolver.typeSlots s queried).get? k = none := by
  unfold Resolver.typeSlots
  split
  · exact Slots.get?_ofArity _ _ k
  · exact Slots.get?_empty k

theorem get?_methodSlots (k : Nat) : (methodSlots member).get? k = none := by
  unfold methodSlots
  split
  · exact Slots.get?_ofArity _ _ k
  · exact Slots.get?_empty k

theorem owner_typeSlots {o : Owner} (h : (Resolver.typeSlots s queried).owner = some o) :
    o = .type queried := by
  unfold Resolver.typeSlots at h
  split at h
  · exact (Option.some.inj h).symm
  · cases h

theorem owner_methodSlots {o : Owner} (h : (methodSlots member).owner = some o) :
    member.methodOwner = some o := by
  unfold methodSlots at h
  split at h
  case h_1 o' ho' =>
    rw [ho']
    exact h
  case h_2 => cases h

/-- A parameter with a slot belongs to the queried definition or to the candidate. -/
theorem owner_of_owns_start {p : GenericParameter}
    (h : (evaluationStart s queried member).start.owns p) :
    p.owner = .type queried ∨ member.methodOwner = some p.owner := by
  unfold Inference.owns Slots.owns at h
  cases hp : p.owner with
  | type d =>
    simp only [hp, Bool.and_eq_true, decide_eq_true_eq] at h
    exact .inl (owner_typeSlots h.1)
  | method m =>
    simp only [hp, Bool.and_eq_true, decide_eq_true_eq] at h
    exact .inr (owner_methodSlots h.1)

theorem Store.IsForeign.isSource {u : TypeId} (h : s.IsForeign queried member u) :
    s.IsSource (evaluationStart s queried member).start.owns u := by
  refine ⟨⟨h.holds, fun q p hq hp => ?_⟩, h.not_byRef⟩
  obtain ⟨htype, hmethod⟩ := h.owner_ne q p hq hp
  exact Bool.eq_false_iff.mpr fun ho => (owner_of_owns_start ho).elim htype hmethod

end Start

/-- Where all slots are bound, every parameter with a slot is. -/
theorem Inferred.exists_bound {inferred : Inferred} (htype : inferred.typeSlots.isComplete)
    (hmethod : inferred.methodSlots.isComplete) {p : GenericParameter}
    (ho : inferred.start.owns p) : ∃ b, inferred.start.bound? p = some b := by
  have hslots : ∀ slots : Slots, slots.isComplete → slots.owns p →
      ∃ b, slots.get? p.position = some b := by
    intro slots hcomplete ho
    simp only [Slots.owns, Bool.and_eq_true, decide_eq_true_eq] at ho
    have hlt : p.position < slots.bound.length := ho.2
    have hsome := List.all_eq_true.mp hcomplete _ (List.getElem_mem hlt)
    obtain ⟨b, hb⟩ := Option.isSome_iff_exists.mp hsome
    refine ⟨b, ?_⟩
    rw [Slots.get?, List.getElem?_eq_getElem hlt, hb]
    rfl
  unfold Inference.owns at ho
  unfold Inference.bound?
  cases hp : p.owner with
  | type d =>
    rw [hp] at ho
    exact hslots _ htype ho
  | method m =>
    rw [hp] at ho
    exact hslots _ hmethod ho

/-- **What is inferred respects constraints.** A candidate is accepted with a type for each
parameter that has a slot, and the type has the special constraints of the parameter. For each
constraint, with the inferred types put in place, the type flows into it if it is an interface, and
is it or has it as one of its bases otherwise. -/
theorem evaluate_respects_constraints {s : Store} (hreach : s.Reachable fun s op => op.Scoped s)
    (hone : s.OneParameterList) (href : s.NoInnerReferences) {depth : Nat}
    {names : NameComparison} {query : Query} {member : Member} {queried : TypeId} {fit : Fit}
    {inferred : Inferred} (hquery : ∀ u ∈ query.types, s.IsForeign queried member u)
    (h : evaluate s depth names query member (Resolver.typeSlots s queried) =
      some (fit, inferred)) :
    ∀ x p, (s.info x).shape = .parameter p → inferred.start.owns p →
      ∃ b, inferred.start.bound? p = some b ∧ satisfiesFlags s b p.flags ∧
        ∀ c ∈ p.constraints, ∀ σ : Substitution, σ.Completes inferred.start →
          ∃ c', substitute σ c s = .ok c' s ∧ s.Meets b c c' := by
  have hs := hreach.wellFormed
  have hsc := hreach.scoped_store
  let start := (evaluationStart s queried member).start
  have hkeep : KeptByMatches s depth query.types fun d =>
      d.start.owns = start.owns ∧ d.start.All (s.IsSource start.owns) ∧
        s.Fulfilled start d.start := by
    rintro u hu v m i j hmatch ⟨howns, hbound, hful⟩
    have hready : s.Ready start.owns u i := ⟨howns, (hquery u hu).isSource, hbound⟩
    have hrespects : Respects s start.owns u v m i j :=
      matchWithin_respects hs hsc href hone hmatch
    have hnext := hrespects.1.ready hready hready.source
    exact ⟨hnext.owns_eq, hnext.bound, hful.trans (hrespects.2 hready).1
      ⟨hrespects.1.1.typeSlots, hrespects.1.1.methodSlots⟩⟩
  obtain ⟨-, -, hful⟩ := evaluate_keeps hkeep h
    ⟨rfl, .of_unbound get?_typeSlots get?_methodSlots, .refl s start⟩
  obtain ⟨-, -, -, -, -, -, -, -, hmethod, htype⟩ := exists_of_evaluate h
  intro x p hp ho
  obtain ⟨b, hb⟩ := Inferred.exists_bound htype hmethod ho
  have hnone : start.bound? p = none := by
    unfold Inference.bound?
    cases p.owner with
    | type => exact get?_typeSlots _
    | method => exact get?_methodSlots _
  obtain ⟨hflags, hconstraints⟩ := hful x p b hp ho hnone hb
  refine ⟨b, hb, hflags, fun c hc σ hσ => ?_⟩
  obtain ⟨c', hheld, himage, hmeets⟩ := hconstraints c hc
  refine ⟨c', ?_, hmeets⟩
  refine substitute_of_image hs.toFormed (himage.mono fun _ _ _ _ _ => hσ.sends) ?_ hheld
  exact hs.holds_constraint (t := x) (by rw [TypeInfo.constraints_of_parameter hp]; exact hc)

/-- A store with a method that asks of its parameter to be comparable with itself. -/
def comparableStore : Store :=
  (Operation.constrain ⟨27⟩ Flags.none [⟨28⟩]).after
    ((Operation.construct Core.equatable [⟨27⟩]).after
      ((Operation.methodParameters ⟨0⟩ ["T"]).after (Operation.newMethod.after Store.initial)))

theorem reachable_comparableStore :
    comparableStore.Reachable fun s op => op.Scoped s := by
  have hmethod : 0 < (Operation.newMethod.after Store.initial).nextMethod := by decide +kernel
  have hsize : 27 < ((Operation.methodParameters ⟨0⟩ ["T"]).after
      (Operation.newMethod.after Store.initial)).size := by decide +kernel
  have hsize' : 28 < ((Operation.construct Core.equatable [⟨27⟩]).after
      ((Operation.methodParameters ⟨0⟩ ["T"]).after
        (Operation.newMethod.after Store.initial))).size := by decide +kernel
  refine .step (.step (.step (.step .initial trivial trivial) hmethod trivial) ⟨?_, ?_⟩ trivial)
    ⟨?_, ?_⟩ trivial
  · exact Nat.lt_trans (by decide) hsize
  · intro a ha
    obtain rfl := List.mem_singleton.mp ha
    exact hsize
  · exact Nat.lt_trans (by decide) hsize'
  · intro c hc
    obtain rfl := List.mem_singleton.mp hc
    exact hsize'

/-- Texts are passed to that method: they are comparable with texts. -/
theorem evaluate_respects_constraints_comparable :
    ∃ (query : Query) (member : Member) (fit : Fit) (inferred : Inferred),
      evaluate comparableStore 30 .caseSensitive query member
        (Resolver.typeSlots comparableStore Core.object) = some (fit, inferred) ∧
      ∃ b, inferred.methodSlots.values = some [b] ∧
        ∃ c', comparableStore.display c' = "IEquatable<String>" ∧
          comparableStore.Accepts b .contravariant c' := by
  let query : Query :=
    { kind := .method, name := "Max", arguments := { positional := [.ofType Core.string] } }
  let member : Member := (Member.method "Max" Core.object
    [{ position := 0, name := none, type := ⟨27⟩ }] ⟨27⟩).withGenericMethod ⟨0⟩ [⟨27⟩]
  let inferred : Inferred :=
    { methodSlots := { owner := some (.method ⟨0⟩), bound := [some Core.string] } }
  let fit : Fit :=
    { weight := { genericTypes := 1, genericArguments := 1, specified := 1,
                  interfaceConstraints := 1, total := 1 }
      sources := [.positional 0] }
  let p : GenericParameter := { owner := .method ⟨0⟩, position := 0, constraints := [⟨28⟩] }
  have hsize : comparableStore.size = 29 := by decide +kernel
  have hone : comparableStore.OneParameterList := .of_place (fun _ k => 27 + k) (by
    rw [hsize]
    decide +kernel)
  have href : comparableStore.NoInnerReferences := noInnerReferences_of_none (by
    rw [hsize]
    decide +kernel)
  have heval : evaluate comparableStore 30 .caseSensitive query member
      (Resolver.typeSlots comparableStore Core.object) = some (fit, inferred) := by
    decide +kernel
  have hforeign : ∀ u ∈ query.types, comparableStore.IsForeign Core.object member u := by
    intro u hu
    obtain rfl : u = Core.string := List.mem_singleton.mp hu
    have hheld : comparableStore.Holds Core.string := by
      rw [Store.Holds, hsize]
      decide
    have hclosed : comparableStore.isOpen Core.string = false := by decide +kernel
    refine ⟨hheld, by decide +kernel, fun q p hq _ => ?_⟩
    rw [(reachable_comparableStore.wellFormed.isOpen_iff hheld).mpr ⟨q, hq⟩] at hclosed
    cases hclosed
  obtain ⟨b, hb, -, hmeets⟩ := evaluate_respects_constraints reachable_comparableStore hone href
    hforeign heval ⟨27⟩ p (by decide +kernel) (by decide +kernel)
  obtain rfl : Core.string = b := Option.some.inj hb
  let σ := inferred.start.substitution Core.object
  obtain ⟨c', hc'⟩ := hmeets ⟨28⟩ (List.mem_singleton_self _) σ
    (Inference.completes_substitution _ _)
  have hrun : (match substitute σ ⟨28⟩ comparableStore with
      | .ok c _ => some c
      | .error _ _ => none) = some ⟨23⟩ := by decide +kernel
  rw [hc'.1] at hrun
  obtain rfl : c' = ⟨23⟩ := Option.some.inj hrun
  refine ⟨query, member, fit, inferred, heval, Core.string, rfl, ⟨23⟩, by decide +kernel, ?_⟩
  have hinterface : (comparableStore.info ⟨28⟩).isInterface := by decide +kernel
  exact hc'.2.accepts hinterface

end CallSite
