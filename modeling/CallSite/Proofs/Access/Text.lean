import CallSite.Proofs.Access.Flags

/-!
# What the text of a mask says

A mask is read from names and from numbers, and a number of 16 bits may set any of them. It is
written with names alone, and eight bits have one. So the text of a mask says which of those eight
bits are set and is silent about the others:

* `CallSite.Access.ofText?_text` – the text of any mask reads as the named part of the mask; a mask
  that has flags, but none with a name, is written as the empty text, and that is no mask.
* `CallSite.Access.text_read_back_iff` – so a text keeps its mask through writing and reading
  exactly if none of its parts sets a bit without a name.

The flags that are written are put together again one by one. What carries the proof is that each
flag with a name is a single bit (`CallSite.Access.isFlag_of_mem_flagNames`): a mask either has all
of it or nothing of it, so that no part of a flag is lost when the flag is left out.
-/

namespace CallSite

/-! ### Pieces with marks between them -/

/-- To cut at a mark is to split there. -/
theorem Text.splitAt_eq_splitOn (mark : Char) (cs : List Char) :
    Text.splitAt mark cs = cs.splitOn mark := by
  induction cs with
  | nil => rfl
  | cons c cs ih =>
    rw [List.splitOn_cons_eq_if_modifyHead, ← ih, Text.splitAt]
    by_cases hmark : c = mark
    · simp [hmark]
    · simp only [hmark, if_false, beq_iff_eq]
      cases hpieces : Text.splitAt mark cs with
      | nil => exact absurd hpieces (Text.splitAt_ne_nil mark cs)
      | cons piece pieces => rfl

/-- Pieces that do not hold the mark are found again. -/
theorem Text.splitAt_intercalate {mark : Char} {pieces : List (List Char)} (hne : pieces ≠ [])
    (hfree : ∀ piece ∈ pieces, mark ∉ piece) :
    Text.splitAt mark ([mark].intercalate pieces) = pieces := by
  rw [Text.splitAt_eq_splitOn]
  exact List.splitOn_intercalate mark hfree hne

namespace Access

/-! ### Flags with a name -/

/-- **Every flag that has a name of its own.** -/
def named : Access :=
  (flagNames.map Prod.fst).foldl union nothing

/-- A flag with a name is a single bit. -/
theorem isFlag_of_mem_flagNames {entry : Access × String} (hentry : entry ∈ flagNames) :
    entry.1.IsFlag := by
  have hsingle : ∀ entry ∈ flagNames, entry.1.IsFlag := by decide
  exact hsingle entry hentry

/-- The flags of a list that a mask has make up what the mask shares with all of them. -/
theorem foldl_union_filter (mask : Access) {entries : List (Access × String)}
    (hentries : ∀ entry ∈ entries, entry ∈ flagNames) (start : Access) :
    ((entries.filter fun entry => mask.contains entry.1).map Prod.fst).foldl union
        (mask.shared start) =
      mask.shared ((entries.map Prod.fst).foldl union start) := by
  induction entries generalizing start with
  | nil => rfl
  | cons entry entries ih =>
    rw [List.forall_mem_cons] at hentries
    have hstep := shared_union mask start entry.1
    rw [List.map_cons, List.foldl_cons, ← ih hentries.2, hstep]
    cases hmask : mask.contains entry.1 with
    | true =>
      rw [List.filter_cons, hmask, if_pos rfl, List.map_cons, List.foldl_cons,
        contains_iff.mp hmask]
    | false =>
      have hnone : mask.shared entry.1 = nothing :=
        ((isFlag_of_mem_flagNames hentries.1).contains_or_shared mask).resolve_left
          (by simp [hmask])
      rw [List.filter_cons, hmask, if_neg Bool.false_ne_true, hnone, union_nothing]

/-- The named flags of a mask make up its named part. -/
theorem foldl_union_flagNames (mask : Access) :
    ((flagNames.filter fun entry => mask.contains entry.1).map Prod.fst).foldl union nothing =
      mask.shared named := by
  have hfold := foldl_union_filter mask (fun _ (hentry : _ ∈ flagNames) => hentry) nothing
  rw [shared_nothing] at hfold
  exact hfold

/-- A mask without a flag that has a name shares nothing with those that have one. -/
theorem filter_flagNames_eq_nil_iff {mask : Access} :
    (flagNames.filter fun entry => mask.contains entry.1) = [] ↔ mask.shared named = nothing := by
  constructor
  · intro hnil
    rw [← foldl_union_flagNames, hnil]
    rfl
  · intro hnone
    refine List.filter_eq_nil_iff.mpr fun entry hentry hmask => ?_
    have hnamed : ∀ entry ∈ flagNames, named.contains entry.1 := by decide
    have hin := hnamed entry hentry
    apply (isFlag_of_mem_flagNames hentry).ne_nothing
    calc entry.1 = mask.shared entry.1 := (contains_iff.mp hmask).symm
      _ = mask.shared (named.shared entry.1) := by rw [contains_iff.mp hin]
      _ = entry.1.shared (mask.shared named) := by rw [← shared_assoc, shared_comm]
      _ = nothing := by rw [hnone, shared_nothing]

/-! ### Reading what was written -/

/-- Flags that are read from their names are put together. -/
theorem foldlM_read_names {entries : List (Access × String)}
    (hentries : ∀ entry ∈ entries, entry ∈ flagNames) (start : Access) :
    (entries.map fun entry => entry.2.toList).foldlM
        (fun mask part => (ofName? (Text.trim part)).map mask.union) start =
      some ((entries.map Prod.fst).foldl union start) := by
  induction entries generalizing start with
  | nil => rfl
  | cons entry entries ih =>
    have hread : ∀ entry ∈ flagNames, ofName? (Text.trim entry.2.toList) = some entry.1 := by
      decide +kernel
    rw [List.forall_mem_cons] at hentries
    rw [List.map_cons, List.foldlM_cons, hread entry hentries.1]
    exact ih hentries.2 (start.union entry.1)

/-- **Names with bars between them** read as the flags of those names. -/
theorem ofText?_intercalate {entries : List (Access × String)} (hne : entries ≠ [])
    (hentries : ∀ entry ∈ entries, entry ∈ flagNames) :
    ofText? ("|".intercalate (entries.map Prod.snd)) =
      some ((entries.map Prod.fst).foldl union nothing) := by
  have hfree : ∀ entry ∈ flagNames, '|' ∉ entry.2.toList := by decide
  have hsplit : Text.splitAt '|' ("|".intercalate (entries.map Prod.snd)).toList =
      entries.map fun entry => entry.2.toList := by
    rw [String.toList_intercalate, List.map_map]
    refine Text.splitAt_intercalate (by simpa using hne) fun piece hpiece => ?_
    obtain ⟨entry, hentry, rfl⟩ := List.mem_map.mp hpiece
    exact hfree entry (hentries entry hentry)
  rw [ofText?, hsplit]
  exact foldlM_read_names hentries nothing

/-- **The text of a mask reads as its named part**, unless that is nothing while the mask is not. -/
theorem ofText?_text (mask : Access) :
    ofText? mask.text =
      if mask ≠ nothing ∧ mask.shared named = nothing then none else some (mask.shared named) := by
  by_cases hzero : mask = nothing
  · subst hzero
    decide +kernel
  have hbits : mask.bits ≠ 0 := fun h => hzero (ext_bits h)
  rw [text, if_neg hbits]
  by_cases hnone : mask.shared named = nothing
  · -- Nothing is written, and the one piece of the empty text is no flag.
    rw [filter_flagNames_eq_nil_iff.mpr hnone, if_pos ⟨hzero, hnone⟩]
    decide +kernel
  · rw [if_neg fun h => hnone h.2,
      ofText?_intercalate (fun h => hnone (filter_flagNames_eq_nil_iff.mp h))
        fun entry hentry => (List.mem_filter.mp hentry).1,
      foldl_union_flagNames]

/-- The text of a mask reads as the mask exactly if each of its flags has a name. -/
theorem ofText?_text_eq_some_iff {mask : Access} :
    ofText? mask.text = some mask ↔ named.contains mask := by
  rw [ofText?_text, contains_iff, shared_comm named mask]
  split
  case isTrue h =>
    exact ⟨fun hread => absurd hread (by simp), fun hsame => absurd (hsame.symm.trans h.2) h.1⟩
  case isFalse => exact Option.some_inj

/-- The mask that is read from parts has only flags with a name if each part has. -/
theorem named_contains_foldlM {parts : List (List Char)} {start mask : Access}
    (h : parts.foldlM (fun mask part => (ofName? (Text.trim part)).map mask.union) start =
      some mask) :
    named.contains mask ↔ named.contains start ∧
      ∀ part ∈ parts, (ofName? (Text.trim part)).all named.contains := by
  induction parts generalizing start with
  | nil =>
    cases h
    simp
  | cons part parts ih =>
    rw [List.foldlM_cons] at h
    cases hpart : ofName? (Text.trim part) with
    | none =>
      rw [hpart] at h
      cases h
    | some flags =>
      rw [hpart] at h
      rw [ih h, contains_union_iff, List.forall_mem_cons, hpart, and_assoc]
      rfl

/-- **A text keeps its mask.** Where a text is read, the text that is written of the mask reads as
the named part of it, and as the mask itself exactly if no part of the text sets a bit without a
name. -/
theorem text_read_back_iff {source : String} {mask : Access} (h : ofText? source = some mask) :
    (ofText? mask.text =
      if mask ≠ nothing ∧ mask.shared named = nothing then none else some (mask.shared named)) ∧
    (ofText? mask.text = some mask ↔
      ∀ part ∈ Text.splitAt '|' source.toList, (ofName? (Text.trim part)).all named.contains) ∧
    (parse mask.text = .ok mask ↔
      ∀ part ∈ Text.splitAt '|' source.toList, (ofName? (Text.trim part)).all named.contains) := by
  have hparts := named_contains_foldlM h
  have hstart : named.contains nothing := by decide
  have hread : ofText? mask.text = some mask ↔
      ∀ part ∈ Text.splitAt '|' source.toList, (ofName? (Text.trim part)).all named.contains := by
    rw [ofText?_text_eq_some_iff, hparts]
    exact and_iff_right hstart
  have hparse : parse mask.text = .ok mask ↔ ofText? mask.text = some mask := by
    unfold parse
    cases ofText? mask.text with
    | none => simp
    | some other => simp
  exact ⟨ofText?_text mask, hread, hparse.trans hread⟩

/-- Names, blanks and numbers that set named bits only. -/
theorem text_read_back_mixed :
    ofText? "public | 0x20|Static|12" = some ⟨0x2D⟩ ∧ ofText? (text ⟨0x2D⟩) = some ⟨0x2D⟩ ∧
      parse (text ⟨0x2D⟩) = .ok ⟨0x2D⟩ := by
  have hread : ofText? "public | 0x20|Static|12" = some ⟨0x2D⟩ := by decide +kernel
  obtain ⟨-, htext, hparse⟩ := text_read_back_iff hread
  exact ⟨hread, htext.mpr (by decide +kernel), hparse.mpr (by decide +kernel)⟩

/-- A number may set a bit that has no name. Alone it is written as a text that is no mask, and
beside a name it is lost. -/
theorem text_loses_unnamed :
    ofText? "0x100" = some ⟨0x100⟩ ∧ ofText? (text ⟨0x100⟩) = none ∧
    ofText? "PUBLIC|0x100" = some ⟨0x101⟩ ∧ ofText? (text ⟨0x101⟩) = some publicMembers := by
  decide +kernel

end Access

end CallSite
