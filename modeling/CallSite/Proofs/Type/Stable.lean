import CallSite.Member.Substitute
import CallSite.Proofs.Type.Growth
import CallSite.Proofs.Type.Hierarchy

/-!
# Reading a store that has grown

Rows are appended to a store and those that are there stay as they are. So every question about a
held type has the answer that it had before, although some answers are found by walks that are
bounded by the number of types: the walks end before they meet their bound, in the old store and in
the new one.
-/

namespace CallSite

namespace Store

/-! ### Walks -/

section Walks

variable {s s' : Store} (hs : s.WellFormed) (hext : s.Extends s')

include hs hext

theorem ancestorsWithin_of_extends {n n' : Nat} {met : List TypeId} {t : TypeId} (ht : s.Holds t)
    (hnew : t ∉ met) (hn : s.unmet met ≤ n) (hn' : s.unmet met ≤ n') :
    s'.ancestorsWithin n' met t = s.ancestorsWithin n met t := by
  have hlt := unmet_lt (List.subset_cons_self t met) ht hnew List.mem_cons_self
  induction n generalizing n' met t with
  | zero => omega
  | succ n ih =>
    obtain ⟨n', rfl⟩ : ∃ k, n' = k + 1 := ⟨n' - 1, by omega⟩
    rw [ancestorsWithin, ancestorsWithin, hext.info_eq ht]
    cases hb : (s.info t).base with
    | none => rfl
    | some b =>
      dsimp only
      split
      case isTrue => rfl
      case isFalse hnot =>
        have hbase := hs.holds_above (TypeInfo.base_mem_above hb)
        rw [ih hbase hnot (by omega) (by omega)
          (unmet_lt (List.subset_cons_self b _) hbase hnot List.mem_cons_self)]

theorem ancestors_of_extends {t : TypeId} (ht : s.Holds t) : s'.ancestors t = s.ancestors t :=
  ancestorsWithin_of_extends hs hext ht List.not_mem_nil (Nat.le_of_eq s.unmet_nil)
    (Nat.le_trans (Nat.le_of_eq s.unmet_nil) hext.size_le)

omit hext in
/-- The walks to some interfaces are the same if each of them is, from whatever was found before. -/
theorem foldl_visitInterface_of_extends {depth depth' : Nat}
    (hvisit : ∀ {found t}, s.Holds t → s.unmet found ≤ depth → s.unmet found ≤ depth' →
      s'.visitInterface depth' found t = s.visitInterface depth found t)
    {items found : List TypeId} (hitems : ∀ u ∈ items, s.Holds u) (hle : s.unmet found ≤ depth)
    (hle' : s.unmet found ≤ depth') :
    items.foldl (s'.visitInterface depth') found = items.foldl (s.visitInterface depth) found := by
  induction items generalizing found with
  | nil => rfl
  | cons u items ih =>
    have hu := hitems u List.mem_cons_self
    have hsub : s.unmet _ ≤ s.unmet found := unmet_le (completes_visitInterface hs hu hle).1.subset
    rw [List.foldl_cons, List.foldl_cons, hvisit hu hle hle']
    exact ih (fun v hv => hitems v (List.mem_cons_of_mem _ hv)) (Nat.le_trans hsub hle)
      (Nat.le_trans hsub hle')

theorem visitInterface_of_extends {depth depth' : Nat} {found : List TypeId} {t : TypeId}
    (ht : s.Holds t) (hle : s.unmet found ≤ depth) (hle' : s.unmet found ≤ depth') :
    s'.visitInterface depth' found t = s.visitInterface depth found t := by
  induction depth generalizing depth' found t with
  | zero =>
    have hin : t ∈ found := by
      by_contra hnot
      have := unmet_lt (List.subset_cons_self t found) ht hnot List.mem_cons_self
      omega
    cases depth' with
    | zero => rfl
    | succ depth' => rw [visitInterface, visitInterface, if_pos hin]
  | succ depth ih =>
    by_cases hin : t ∈ found
    · cases depth' with
      | zero => rw [visitInterface, visitInterface, if_pos hin]
      | succ depth' => rw [visitInterface, visitInterface, if_pos hin, if_pos hin]
    · have hlt := unmet_lt (List.subset_append_left found [t]) ht hin
        (List.mem_append_right _ (List.mem_singleton_self t))
      obtain ⟨depth', rfl⟩ : ∃ k, depth' = k + 1 := ⟨depth' - 1, by omega⟩
      rw [visitInterface, visitInterface, if_neg hin, if_neg hin, hext.info_eq ht]
      exact foldl_visitInterface_of_extends hs ih
        (fun u hu => hs.holds_above (TypeInfo.interface_mem_above hu)) (by omega) (by omega)

theorem allInterfaces_of_extends {t : TypeId} (ht : s.Holds t) :
    s'.allInterfaces t = s.allInterfaces t := by
  have hall : ∀ a ∈ s.ancestors t, s.Holds a := fun a ha =>
    (upward_of_mem_ancestors ha).holds hs ht
  have hle : ∀ found, s.unmet found ≤ s.size := fun found =>
    s.unmet_nil ▸ unmet_le (List.nil_subset found)
  rw [allInterfaces, allInterfaces, ancestors_of_extends hs hext ht]
  refine List.foldl_ext _ _ _ fun found a ha => ?_
  rw [visitInterfaces, visitInterfaces, hext.info_eq (hall a ha)]
  exact foldl_visitInterface_of_extends hs (visitInterface_of_extends hs hext)
    (fun u hu => hs.holds_above (TypeInfo.interface_mem_above hu)) (hle found)
    (Nat.le_trans (hle found) hext.size_le)

end Walks

/-! ### Questions about one type -/

section Questions

variable {s s' : Store} {t : TypeId}

theorem genericDefinition_of_extends (hext : s.Extends s') (ht : s.Holds t) :
    s'.genericDefinition t = s.genericDefinition t := by
  rw [genericDefinition, genericDefinition, hext.info_eq ht]

theorem genericParameters_of_extends (hext : s.Extends s') (ht : s.Holds t) :
    s'.genericParameters t = s.genericParameters t := by
  rw [genericParameters, genericParameters, hext.info_eq ht]

theorem nullableUnderlying_of_extends (hext : s.Extends s') (ht : s.Holds t) :
    s'.nullableUnderlying t = s.nullableUnderlying t := by
  rw [nullableUnderlying, nullableUnderlying, hext.info_eq ht]

theorem stripByRef_of_extends (hext : s.Extends s') (ht : s.Holds t) :
    s'.stripByRef t = s.stripByRef t := by
  rw [stripByRef, stripByRef, hext.info_eq ht]

theorem holds_stripByRef (hs : s.WellFormed) (ht : s.Holds t) : s.Holds (s.stripByRef t) := by
  unfold stripByRef
  split
  case h_1 e he =>
    refine hs.holds_part (t := t) ?_
    exact Store.target_mem_parts (TypeInfo.form_eq_reference_iff.mpr he)
  case h_2 => exact ht

theorem isNullAssignable_of_extends (hs : s.WellFormed) (hext : s.Extends s') (ht : s.Holds t) :
    s'.isNullAssignable t = s.isNullAssignable t := by
  have hinner := holds_stripByRef hs ht
  rw [isNullAssignable, isNullAssignable, stripByRef_of_extends hext ht, hext.info_eq hinner,
    nullableUnderlying_of_extends hext hinner]

theorem isOpen_of_grown (hs : s.WellFormed) (hgrown : s.Grown s') (ht : s.Holds t) :
    s'.isOpen t = s.isOpen t := by
  rw [Bool.eq_iff_iff, hgrown.wellFormed.isOpen_iff (hgrown.holds ht), hs.isOpen_iff ht]
  exact exists_congr fun q => hgrown.mentions_iff hs.toFormed ht

theorem constraintsOf_of_extends (hext : s.Extends s') {ts : List TypeId}
    (hts : ∀ t ∈ ts, s.Holds t) : s'.constraintsOf ts = s.constraintsOf ts := by
  rw [constraintsOf, constraintsOf]
  refine List.flatMap_congr fun t ht => ?_
  rw [hext.info_eq (hts t ht)]

/-- Nothing is written of a type that a descent into its parts does not reach. -/
theorem displayWithin_of_extends (hs : s.Formed) (hext : s.Extends s') {depth depth' : Nat}
    (ht : s.Holds t) (hdepth : s.height t < depth) (hdepth' : s.height t < depth') :
    s'.displayWithin depth' t = s.displayWithin depth t := by
  induction depth generalizing depth' t with
  | zero => exact absurd hdepth (Nat.not_lt_zero _)
  | succ depth ih =>
    obtain ⟨depth', rfl⟩ : ∃ k, depth' = k + 1 := ⟨depth' - 1, by omega⟩
    have hpart : ∀ u ∈ s.parts t, s'.displayWithin depth' u = s.displayWithin depth u := by
      intro u hu
      have hlt := hs.height_part hu
      exact ih (hs.holds_part hu) (by omega) (by omega)
    rw [displayWithin, displayWithin, hext.info_eq ht]
    cases hshape : (s.info t).shape with
    | arrayType e rank =>
      dsimp only
      rw [hpart e]
      exact Store.element_mem_parts (TypeInfo.form_eq_array_iff.mpr hshape)
    | byRefType e =>
      dsimp only
      rw [hpart e]
      exact Store.target_mem_parts (TypeInfo.form_eq_reference_iff.mpr hshape)
    | classType | interfaceType | structType | parameter =>
      dsimp only
      rw [List.map_congr_left fun a ha => hpart a (hs.mem_parts_of_mem_arguments ha)]

theorem display_of_extends (hs : s.Formed) (hext : s.Extends s') (ht : s.Holds t) :
    s'.display t = s.display t := by
  have hle := s.height_le t
  have hlt : t.index < s.size := ht
  have hsize := hext.size_le
  exact displayWithin_of_extends hs hext ht (by omega) (by omega)

end Questions

end Store

end CallSite
