import CallSite.Access

/-!
# Masks as sets of flags

What a mask has is what it shares with other masks, and a mask has several flags exactly if it has
each of them. A **flag** is a single bit: a mask either has all of it or nothing of it
(`CallSite.Access.IsFlag.contains_or_shared`), and a union has it exactly if one of its parts does
(`CallSite.Access.IsFlag.contains_union`). Neither holds of masks with several bits.
-/

namespace CallSite

namespace Access

/-! ### Masks as sets -/

/-- The flags that are set in both. -/
def shared (mask other : Access) : Access :=
  ⟨mask.bits &&& other.bits⟩

theorem ext_bits {mask other : Access} (h : mask.bits = other.bits) : mask = other := by
  cases mask
  cases other
  exact congrArg Access.mk h

/-- A mask has the flags of another if these are what the two share. -/
theorem contains_iff {mask other : Access} : mask.contains other ↔ mask.shared other = other := by
  rw [contains, beq_iff_eq]
  exact ⟨ext_bits, congrArg bits⟩

theorem shared_comm (mask other : Access) : mask.shared other = other.shared mask :=
  ext_bits (UInt16.and_comm _ _)

theorem shared_assoc (mask other third : Access) :
    (mask.shared other).shared third = mask.shared (other.shared third) :=
  ext_bits (UInt16.and_assoc _ _ _)

@[simp]
theorem shared_nothing (mask : Access) : mask.shared nothing = nothing :=
  ext_bits UInt16.and_zero

@[simp]
theorem union_nothing (mask : Access) : mask.union nothing = mask :=
  ext_bits UInt16.or_zero

/-- What is shared with two sets is shared with the one or with the other. -/
theorem shared_union (mask other third : Access) :
    mask.shared (other.union third) = (mask.shared other).union (mask.shared third) :=
  ext_bits (UInt16.toBitVec_inj.mp BitVec.and_or_distrib_left)

/-- A mask has the flags of another if it has each of them. -/
theorem contains_iff_getLsbD {mask other : Access} :
    mask.contains other ↔
      ∀ i < 16, other.bits.toBitVec.getLsbD i → mask.bits.toBitVec.getLsbD i := by
  rw [contains, beq_iff_eq, ← UInt16.toBitVec_inj, BitVec.eq_of_getLsbD_eq_iff]
  simp only [UInt16.toBitVec_and, BitVec.getLsbD_and, Bool.and_eq_right_iff_imp]

/-- A mask has the flags of two sets if it has those of each. -/
theorem contains_union_iff {mask other third : Access} :
    mask.contains (other.union third) ↔ mask.contains other ∧ mask.contains third := by
  simp only [contains_iff_getLsbD, union, UInt16.toBitVec_or, BitVec.getLsbD_or, Bool.or_eq_true,
    or_imp, imp_and, forall_and]

/-! ### Single flags -/

/-- A mask of one bit. -/
def IsFlag (flag : Access) : Prop :=
  ∃ i < 16, flag.bits.toBitVec = BitVec.twoPow 16 i

instance (flag : Access) : Decidable flag.IsFlag :=
  inferInstanceAs (Decidable (∃ i < 16, flag.bits.toBitVec = BitVec.twoPow 16 i))

namespace IsFlag

variable {flag : Access} (h : flag.IsFlag)

include h

/-- A mask has all of a flag or nothing of it. -/
theorem contains_or_shared (mask : Access) : mask.contains flag ∨ mask.shared flag = nothing := by
  obtain ⟨i, -, hbit⟩ := h
  have hshared : (mask.shared flag).bits.toBitVec =
      if mask.bits.toBitVec.getLsbD i then flag.bits.toBitVec else 0#16 := by
    rw [hbit, ← BitVec.and_twoPow, ← hbit]
    rfl
  cases hset : mask.bits.toBitVec.getLsbD i with
  | true =>
    rw [hset, if_pos rfl] at hshared
    exact .inl (contains_iff.mpr (ext_bits (UInt16.toBitVec_inj.mp hshared)))
  | false =>
    rw [hset] at hshared
    exact .inr (ext_bits (UInt16.toBitVec_inj.mp hshared))

/-- To have a flag is to have one bit set. -/
theorem exists_getLsbD : ∃ i < 16, ∀ mask : Access,
    mask.contains flag = mask.bits.toBitVec.getLsbD i := by
  obtain ⟨i, hi, hbit⟩ := h
  refine ⟨i, hi, fun mask => Bool.eq_iff_iff.mpr ?_⟩
  rw [contains_iff_getLsbD, hbit]
  constructor
  · intro hall
    exact hall i hi (by simp [hi])
  · intro hset j hj hflag
    obtain rfl : j = i := by simpa [hj] using hflag
    exact hset

/-- A flag is something. -/
theorem ne_nothing : flag ≠ nothing := by
  obtain ⟨i, hi, hget⟩ := h.exists_getLsbD
  intro hnothing
  have hself : nothing.bits.toBitVec.getLsbD i = true := by
    rw [← hget, hnothing, contains_self]
  simp [nothing] at hself

/-- A union has a flag if one of its parts has it. -/
theorem contains_union (mask other : Access) :
    (mask.union other).contains flag = (mask.contains flag || other.contains flag) := by
  obtain ⟨i, -, hget⟩ := h.exists_getLsbD
  rw [hget, hget, hget, union, UInt16.toBitVec_or, BitVec.getLsbD_or]

/-- What is taken out is no longer there. -/
theorem contains_difference (mask : Access) : (mask.difference flag).contains flag = false := by
  obtain ⟨i, hi, hget⟩ := h.exists_getLsbD
  have hself : flag.bits.toBitVec.getLsbD i = true := by rw [← hget, contains_self]
  rw [hget, difference, UInt16.toBitVec_and, UInt16.toBitVec_not, BitVec.getLsbD_and,
    BitVec.getLsbD_not, hself]
  simp

end IsFlag

end Access

end CallSite
