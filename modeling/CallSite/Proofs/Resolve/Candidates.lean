import CallSite.Proofs.Member.Image
import CallSite.Proofs.Resolve.Repeat

/-!
# What is listed for a query

The candidates for a query are found type by type: on each type that is searched, those registered
members of its definition that pass the mask are listed as what they are on that type. Which members
these are does not depend on the types that are put in place of parameters
(`CallSite.builds_candidates`).

* `listed` – the registered members that are looked at, each with the type on which it is found and
  the distance of that type.
-/

namespace CallSite

/-- **What is listed for a query**: registered members, each with the type on which it is found and
the distance of that type from the queried one. -/
def listed (registry : Registry) (access : Access) (query : Query) (s : Store) (t : TypeId) :
    List (Member × TypeId × Nat) :=
  (searchedTypes s access query.kind t).zipIdx.flatMap fun (declaring, depth) =>
    ((registry.declared (s.head declaring) query.kind).filter
      (isCandidate access query.name depth)).map fun m => (m, declaring, depth)

/-- A member is made from a registered one on a type, and all that it is made from is held. -/
structure Member.MadeOn (s : Store) (t : TypeId) (m m' : Member) : Prop where
  /-- The type is held. -/
  holds : s.Holds t
  /-- The types of the registered member are held. -/
  registered : m.HeldBy s
  /-- So are those of the member. -/
  made : m'.HeldBy s
  /-- It is what the registered member is on that type. -/
  onType : m.OnType s t m'

theorem Member.MadeOn.of_extends {s s' : Store} {t : TypeId} {m m' : Member}
    (h : m.MadeOn s t m') (hs : s.Formed) (hext : s.Extends s') : m.MadeOn s' t m' :=
  ⟨hext.holds h.holds, h.registered.of_extends hext, h.made.of_extends hext,
    h.onType.of_extends hs hext h.holds h.registered h.made⟩

/-- The image of a member passes where the member does. -/
theorem Member.ImageOf.isCandidate_eq {s : Store} {σ : Substitution} {m m' : Member}
    (h : m.ImageOf s σ m') (access : Access) (name : String) (depth : Nat) :
    isCandidate access name depth m' = isCandidate access name depth m := by
  rw [isCandidate, isCandidate, h.name_eq, h.visibility_eq, h.isStatic_eq]

section Candidates

variable {s : Store} (hs : s.WellFormed) {registry : Registry} (hregistry : registry.HeldBy s)
  {t : TypeId} (ht : s.Holds t)

include hs hregistry ht

/-- **What a type declares** is what its definition declares, on that type. -/
theorem builds_declaredMembers (kind : MemberKind) :
    Builds (declaredMembers registry t kind) s fun ms s' =>
      List.Forall₂ (fun m m' => m.MadeOn s' t m') (registry.declared (s.head t) kind) ms := by
  refine .get_bind ?_
  rw [Store.head]
  dsimp only
  split
  case h_1 hnone =>
    rw [hnone]
    exact .pure hs (List.forall₂_same.mpr fun m hm =>
      ⟨ht, hregistry.declared hm, hregistry.declared hm, .registered hnone⟩)
  case h_2 d hdef =>
    rw [hdef]
    have hσ : (Substitution.forType d (s.info t).arguments).HeldBy s := .forType fun a ha =>
      hs.holds_part (hs.mem_parts_of_mem_arguments ha)
    refine .mapM hs (fun m m' s' s'' hgrown hs' h => h.of_extends hs'.toFormed hgrown.toExtends) _
      fun m hm s' hgrown => ?_
    have hm' := (hregistry.declared hm).of_extends hgrown.toExtends
    refine (builds_memberSubstitute hgrown.wellFormed (hσ.of_extends hgrown.toExtends) hm').imp
      fun m' s'' hgrown' hmade => ?_
    obtain ⟨hheld, τ, hpart, hτ, himage⟩ := hmade
    have hrow : s''.info t = s.info t := (hgrown.trans hgrown').info_eq ht
    refine ⟨(hgrown.trans hgrown').holds ht, hm'.of_extends hgrown'.toExtends, hheld,
      .instantiated (d := d) (by rw [hrow]; exact hdef) (by rw [hrow]; exact hpart)
        (fun hopen => ?_) himage⟩
    rw [hrow]
    exact hτ (.inl hopen)

/-- **The candidates are what is listed**, each made on the type on which it is found. -/
theorem builds_candidates (access : Access) (query : Query) :
    Builds (candidates registry access query t) s fun found s' =>
      List.Forall₂ (fun entry candidate => candidate.2 = entry.2.2 ∧
        entry.1.MadeOn s' entry.2.1 candidate.1) (listed registry access query s t) found := by
  refine .get_bind ?_
  refine (Builds.mapM (P := fun (item : TypeId × Nat) (found : List (Member × Nat)) s' =>
      List.Forall₂ (fun m candidate => candidate.2 = item.2 ∧ m.MadeOn s' item.1 candidate.1)
        ((registry.declared (s.head item.1) query.kind).filter
          (isCandidate access query.name item.2)) found) hs
    (fun _ _ s' s'' hgrown hs' h => h.imp fun _ _ h =>
      ⟨h.1, h.2.of_extends hs'.toFormed hgrown.toExtends⟩) _ fun item hitem s' hgrown => ?_).bind hs
    fun found s' hgrown hfound => .pure hgrown.wellFormed ?_
  · have hdeclaring := holds_searchedTypes hs ht (List.fst_mem_of_mem_zipIdx hitem)
    refine (builds_declaredMembers hgrown.wellFormed (hregistry.of_extends hgrown.toExtends)
      (hgrown.holds hdeclaring) query.kind).bind hgrown.wellFormed fun ms s'' hgrown' hms =>
        .pure hgrown'.wellFormed ?_
    rw [hgrown.head_eq hdeclaring] at hms
    rw [List.forall₂_map_right_iff]
    refine (List.rel_filter (R := fun m m' : Member => m.MadeOn s'' item.1 m') (fun m m' h => ?_)
      hms).imp fun _ _ h => ⟨rfl, h⟩
    obtain ⟨τ, himage⟩ := h.onType.imageOf hgrown'.wellFormed.toFormed
    exact Bool.eq_iff_iff.mp (himage.isCandidate_eq access query.name item.2).symm
  · rw [listed, List.flatMap_def]
    refine List.rel_flatten (List.forall₂_map_left_iff.mpr (hfound.imp fun item entries h => ?_))
    exact List.forall₂_map_left_iff.mpr h

end Candidates

end CallSite
