import CallSite.Proofs.Call.Ranking
import CallSite.Proofs.List
import CallSite.Resolve.Select

/-!
# Who is chosen

A choice among accepted candidates looks at the first two of the ranked list and counts a run of
equal weights at its front. What it decides can be said without the list being ranked at all:

* `Accepted.Beats` – one candidate leaves another behind, by its weight or, where the mask asks for
  it, by its distance;
* `Accepted.Wins` – an entry of a list beats all others;
* `Accepted.Leads` – no weight in a list ranks before that of an entry.

None of these mentions where in the list a candidate stands, so the outcome is the same for every
order of the list. The step from the ranked list to all of it is that the next best candidate is
beaten only if every other one is (`Accepted.beats_all_iff`).
-/

namespace CallSite

namespace Accepted

/-! ### The order of candidates -/

instance : Std.TransCmp compareWeight where
  eq_swap := fun {_ _} => @Std.OrientedCmp.eq_swap _ Weight.compare _ _ _
  isLE_trans := fun {_ _ _} => @Std.TransCmp.isLE_trans _ Weight.compare _ _ _ _

instance : Std.TransCmp compare :=
  inferInstanceAs (Std.TransCmp (compareLex compareWeight (compareOn depth)))

/-- Who is ranked no later has no worse weight, and is no farther away if the weights rank
equally. -/
theorem isLE_compare_iff {a b : Accepted} : (compare a b).isLE ↔
    compareWeight a b = .lt ∨ compareWeight a b = .eq ∧ a.depth ≤ b.depth := by
  rw [compare]
  cases compareWeight a b <;> simp [Ordering.then, Nat.isLE_compare]

/-- Ranking puts the candidates in order. -/
theorem pairwise_rank (accepted : List Accepted) :
    (rank accepted).Pairwise fun a b => (compare a b).isLE := by
  refine List.pairwise_mergeSort (fun a b c => Std.TransCmp.isLE_trans) (fun a b => ?_) accepted
  rw [@Std.OrientedCmp.eq_swap _ compare _ b]
  cases compare a b <;> rfl

/-! ### Winners and leaders -/

/-- **One candidate beats another**: its weight ranks before, or the weights rank equally, the mask
asks for the nearest, and it is nearer. -/
def Beats (access : Access) (a b : Accepted) : Prop :=
  a.fit.weight.isBetter b.fit.weight ∨
    access.contains Access.topHierarchy ∧ compareWeight a b = .eq ∧ a.depth < b.depth

/-- Who beats another is ranked before it. -/
theorem Beats.compare_eq_lt {access : Access} {a b : Accepted} (h : a.Beats access b) :
    compare a b = .lt := by
  rcases h with hbetter | ⟨-, heq, hdepth⟩
  · rw [compare, compareWeight, Weight.isBetter_iff.mp hbetter]
    rfl
  · rw [compare, heq]
    exact Nat.compare_eq_lt.mpr hdepth

/-- **An entry of a list wins** when it beats every other entry. -/
def Wins (access : Access) (accepted : List Accepted) (best : Accepted) : Prop :=
  ∃ before after, accepted = before ++ best :: after ∧
    ∀ other ∈ before ++ after, best.Beats access other

/-- A weight is not beaten by another if it ranks no later. -/
theorem not_isBetter_iff {a b : Accepted} :
    ¬ b.fit.weight.isBetter a.fit.weight ↔ (compareWeight a b).isLE := by
  rw [Weight.isBetter_iff, ← Std.OrientedCmp.gt_iff_lt]
  change ¬ compareWeight a b = .gt ↔ _
  cases compareWeight a b <;> decide

/-- **An entry of a list leads** when no weight in the list ranks before its own. -/
structure Leads (accepted : List Accepted) (best : Accepted) : Prop where
  /-- It is an entry. -/
  mem : best ∈ accepted
  /-- Its weight is not beaten. -/
  isLE : ∀ other ∈ accepted, (compareWeight best other).isLE

variable {access : Access} {accepted accepted' : List Accepted} {best : Accepted}

/-- A winner is one whose others are all beaten, whatever their order. -/
theorem wins_iff_perm : Wins access accepted best ↔
    ∃ others, accepted.Perm (best :: others) ∧ ∀ other ∈ others, best.Beats access other := by
  constructor
  · rintro ⟨before, after, rfl, hbeats⟩
    exact ⟨before ++ after, List.perm_middle, hbeats⟩
  · rintro ⟨others, hperm, hbeats⟩
    obtain ⟨before, after, rfl⟩ := List.append_of_mem (hperm.mem_iff.mpr List.mem_cons_self)
    have hothers := (List.perm_middle.symm.trans hperm).cons_inv
    exact ⟨before, after, rfl, fun other hmem => hbeats other (hothers.mem_iff.mp hmem)⟩

/-- Of two entries one is the other or is among the rest. -/
theorem Wins.eq_or_beats (h : Wins access accepted best) {other : Accepted}
    (hmem : other ∈ accepted) : other = best ∨ best.Beats access other := by
  obtain ⟨others, hperm, hbeats⟩ := wins_iff_perm.mp h
  exact (List.mem_cons.mp (hperm.mem_iff.mp hmem)).imp_right (hbeats other)

theorem Wins.mem (h : Wins access accepted best) : best ∈ accepted := by
  obtain ⟨before, after, rfl, -⟩ := h
  exact List.mem_append_right _ List.mem_cons_self

/-- **At most one entry wins.** -/
theorem Wins.unique (h : Wins access accepted best) {best' : Accepted}
    (h' : Wins access accepted best') : best' = best := by
  rcases h.eq_or_beats h'.mem with heq | hbeats
  · exact heq
  rcases h'.eq_or_beats h.mem with heq | hbeats'
  · exact heq.symm
  · have hgt := Std.OrientedCmp.gt_iff_lt.mpr hbeats'.compare_eq_lt
    rw [hbeats.compare_eq_lt] at hgt
    cases hgt

theorem wins_congr (hperm : accepted.Perm accepted') :
    Wins access accepted best ↔ Wins access accepted' best := by
  rw [wins_iff_perm, wins_iff_perm]
  exact exists_congr fun others => and_congr_left' (hperm.congr_left _)

theorem Leads.of_perm (h : Leads accepted best) (hperm : accepted.Perm accepted') :
    Leads accepted' best :=
  ⟨hperm.mem_iff.mp h.mem, fun other hmem => h.isLE other (hperm.mem_iff.mpr hmem)⟩

/-- Who leads has a weight that ranks equally with that of any other leader. -/
theorem Leads.compareWeight_eq (h : Leads accepted best) {best' : Accepted}
    (h' : Leads accepted best') : compareWeight best best' = .eq := by
  have hle := h.isLE best' h'.mem
  have hge := h'.isLE best h.mem
  rw [@Std.OrientedCmp.eq_swap _ compareWeight] at hge
  cases hcmp : compareWeight best best' <;> rw [hcmp] at hle hge <;> simp_all

/-! ### The ranked list -/

section Ranked

variable {next : Accepted} {rest : List Accepted}

/-- In a ranked list the first beats all others as soon as it beats the second. -/
theorem beats_all_iff (hsorted : (best :: next :: rest).Pairwise fun a b => (compare a b).isLE) :
    (∀ other ∈ next :: rest, best.Beats access other) ↔ best.Beats access next := by
  refine ⟨fun h => h next List.mem_cons_self, fun h other hmem => ?_⟩
  obtain rfl | hrest := List.mem_cons.mp hmem
  · exact h
  have hnext := (List.pairwise_cons.mp (List.pairwise_cons.mp hsorted).2).1 other hrest
  rcases isLE_compare_iff.mp hnext with hlt | ⟨heq, hdepth⟩
  · -- The weight of the other is worse than that of the second, so also than that of the first.
    left
    rw [Weight.isBetter_iff]
    rcases h with hbetter | ⟨-, heq, -⟩
    · exact @Std.TransCmp.lt_trans _ compareWeight _ _ _ _ (Weight.isBetter_iff.mp hbetter) hlt
    · exact (@Std.TransCmp.congr_left _ compareWeight _ _ _ _ heq).trans hlt
  · -- It ranks equally with that of the second, and the other is no nearer.
    rcases h with hbetter | ⟨htop, heq', hdepth'⟩
    · left
      rw [Weight.isBetter_iff]
      exact (@Std.TransCmp.congr_right _ compareWeight _ _ _ _ heq).symm.trans
        (Weight.isBetter_iff.mp hbetter)
    · exact .inr ⟨htop, Std.TransCmp.eq_trans heq' heq, Nat.lt_of_lt_of_le hdepth' hdepth⟩

/-- The first of a ranked list leads. -/
theorem leads_of_sorted (hsorted : (best :: rest).Pairwise fun a b => (compare a b).isLE) :
    Leads (best :: rest) best := by
  refine ⟨List.mem_cons_self, fun other hmem => ?_⟩
  obtain rfl | hrest := List.mem_cons.mp hmem
  · rw [@Std.ReflCmp.compare_self _ compareWeight]
    rfl
  · rcases isLE_compare_iff.mp ((List.pairwise_cons.mp hsorted).1 other hrest) with h | ⟨h, -⟩ <;>
      rw [h] <;> rfl

/-- In a ranked list the weights that rank equally with the first stand together at the front. -/
theorem length_equal_weights (hsorted : (best :: rest).Pairwise fun a b => (compare a b).isLE) :
    ((best :: rest).takeWhile fun a => best.compareWeight a == .eq).length =
      (best :: rest).countP fun a => best.compareWeight a == .eq := by
  have hlead := (leads_of_sorted hsorted).isLE
  refine length_takeWhile_of_pairwise (hsorted.imp_of_mem fun {a b} ha _ hab hb => ?_)
  rw [beq_iff_eq] at hb ⊢
  have hge : (compareWeight a b).isLE := by
    rcases isLE_compare_iff.mp hab with h | ⟨h, -⟩ <;> rw [h] <;> rfl
  -- A weight between two that rank equally ranks equally with them.
  cases hcmp : best.compareWeight a with
  | eq => rfl
  | gt => exact absurd (hlead a ha) (by rw [hcmp]; decide)
  | lt => exact absurd (Std.TransCmp.lt_of_lt_of_isLE hcmp hge) (by rw [hb]; decide)

/-- **The choice from a ranked list** is its first entry, if that beats all others, and else a tie
of all that rank equally with it. -/
theorem selectRanked_of_sorted
    (hsorted : (best :: rest).Pairwise fun a b => (compare a b).isLE) :
    ((∀ other ∈ rest, best.Beats access other) ∧
      selectRanked access (best :: rest) = .winner best) ∨
    ((∃ other ∈ rest, ¬ best.Beats access other) ∧ selectRanked access (best :: rest) =
      .tie ((best :: rest).countP fun a => best.compareWeight a == .eq)) := by
  cases rest with
  | nil => exact .inl ⟨fun _ h => absurd h List.not_mem_nil, rfl⟩
  | cons next rest =>
    rw [selectRanked, length_equal_weights hsorted, beats_all_iff hsorted]
    have hle := isLE_compare_iff.mp ((List.pairwise_cons.mp hsorted).1 next List.mem_cons_self)
    by_cases hlt : best.compareWeight next = .lt
    · exact .inl ⟨.inl (Weight.isBetter_iff.mpr hlt), if_pos hlt⟩
    rw [if_neg hlt]
    obtain ⟨heq, hdepth⟩ := hle.resolve_left hlt
    by_cases htop : (access.contains Access.topHierarchy && best.depth ≠ next.depth) = true
    · rw [if_pos htop]
      obtain ⟨htop, hne⟩ := Bool.and_eq_true_iff.mp htop
      exact .inl ⟨.inr ⟨htop, heq, Nat.lt_of_le_of_ne hdepth (of_decide_eq_true hne)⟩, rfl⟩
    · rw [if_neg htop]
      refine .inr ⟨⟨next, List.mem_cons_self, ?_⟩, rfl⟩
      rintro (hbetter | ⟨hcontains, -, hnear⟩)
      · exact hlt (Weight.isBetter_iff.mp hbetter)
      · exact htop (Bool.and_eq_true_iff.mpr ⟨hcontains, decide_eq_true (Nat.ne_of_lt hnear)⟩)

end Ranked

end Accepted

/-! ### The choice from any list -/

section Select

open Accepted

variable {access : Access} {accepted : List Accepted} {best : Accepted}

theorem select_nil (access : Access) : select access [] = .nobody := by
  rw [select, rank, List.mergeSort_nil]
  rfl

/-- Ranking puts an entry that leads first: it wins and is chosen, or nobody wins and those that
rank equally with it are counted. -/
theorem select_cases (access : Access) (hne : accepted ≠ []) : ∃ best, Leads accepted best ∧
    (Wins access accepted best ∧ select access accepted = .winner best ∨
      (∀ other, ¬ Wins access accepted other) ∧
        select access accepted =
          .tie (accepted.countP fun a => best.compareWeight a == .eq)) := by
  have hperm : (rank accepted).Perm accepted := List.mergeSort_perm _ _
  have hsorted := pairwise_rank accepted
  unfold select
  generalize rank accepted = ranked at hperm hsorted
  cases ranked with
  | nil => exact absurd hperm.symm.eq_nil hne
  | cons best rest =>
    refine ⟨best, (leads_of_sorted hsorted).of_perm hperm, ?_⟩
    rcases @selectRanked_of_sorted access _ _ hsorted with ⟨hbeats, heq⟩ | ⟨hnot, heq⟩
    · exact .inl ⟨wins_iff_perm.mpr ⟨rest, hperm.symm, hbeats⟩, heq⟩
    · refine .inr ⟨fun other hwins => ?_, heq.trans (congrArg _ (hperm.countP_eq _))⟩
      -- Only the first could win, since nobody beats it.
      obtain ⟨others, hothers, hbeats⟩ := wins_iff_perm.mp hwins
      rcases hwins.eq_or_beats (hperm.mem_iff.mp List.mem_cons_self) with rfl | hfirst
      · obtain ⟨loser, hmem, hloser⟩ := hnot
        exact hloser (hbeats loser ((hperm.trans hothers).cons_inv.mem_iff.mp hmem))
      · have hgt := Std.OrientedCmp.gt_iff_lt.mpr hfirst.compare_eq_lt
        rcases List.mem_cons.mp (hperm.mem_iff.mpr hwins.mem) with rfl | hmem
        · rw [@Std.ReflCmp.compare_self _ Accepted.compare] at hgt
          cases hgt
        · have hle := (List.pairwise_cons.mp hsorted).1 other hmem
          rw [hgt] at hle
          cases hle

theorem select_eq_nobody_iff : select access accepted = .nobody ↔ accepted = [] := by
  constructor
  · intro h
    by_contra hne
    obtain ⟨best, -, ⟨-, heq⟩ | ⟨-, heq⟩⟩ := select_cases access hne <;> rw [h] at heq <;> cases heq
  · rintro rfl
    exact select_nil access

/-- **Who is chosen** is who beats every other entry. -/
theorem select_eq_winner_iff :
    select access accepted = .winner best ↔ Wins access accepted best := by
  constructor
  · intro h
    have hne : accepted ≠ [] := by
      rintro rfl
      rw [select_nil] at h
      cases h
    obtain ⟨best', -, ⟨hwins, heq⟩ | ⟨-, heq⟩⟩ := select_cases access hne <;> rw [h] at heq
    · rwa [Selection.winner.inj heq]
    · cases heq
  · intro h
    obtain ⟨best', -, ⟨hwins, heq⟩ | ⟨hnone, -⟩⟩ :=
      select_cases access (List.ne_nil_of_mem h.mem)
    · rw [heq, hwins.unique h]
    · exact absurd h (hnone best)

/-- **A tie** is counted where nobody beats all others: all entries that rank equally with one that
leads. -/
theorem select_eq_tie_iff {count : Nat} : select access accepted = .tie count ↔
    (∀ other, ¬ Wins access accepted other) ∧ ∃ best, Leads accepted best ∧
      count = accepted.countP fun a => best.compareWeight a == .eq := by
  constructor
  · intro h
    have hne : accepted ≠ [] := by
      rintro rfl
      rw [select_nil] at h
      cases h
    obtain ⟨best, hlead, ⟨-, heq⟩ | ⟨hnone, heq⟩⟩ := select_cases access hne <;> rw [h] at heq
    · cases heq
    · exact ⟨hnone, best, hlead, Selection.tie.inj heq⟩
  · rintro ⟨hnone, best, hlead, rfl⟩
    obtain ⟨best', hlead', ⟨hwins, -⟩ | ⟨-, heq⟩⟩ :=
      select_cases access (List.ne_nil_of_mem hlead.mem)
    · exact absurd hwins (hnone best')
    · rw [heq]
      congr 2
      funext a
      rw [Std.TransCmp.congr_left (hlead.compareWeight_eq hlead')]

/-- **The choice does not depend on the order** in which the candidates are listed. -/
theorem select_perm {reordered : List Accepted} (hperm : reordered.Perm accepted) :
    select access reordered = select access accepted := by
  cases h : select access accepted with
  | nobody =>
    obtain rfl := select_eq_nobody_iff.mp h
    rw [hperm.eq_nil, select_nil]
  | winner best =>
    exact select_eq_winner_iff.mpr ((wins_congr hperm).mpr (select_eq_winner_iff.mp h))
  | tie count =>
    obtain ⟨hnone, best, hlead, rfl⟩ := select_eq_tie_iff.mp h
    exact select_eq_tie_iff.mpr ⟨fun other hwins => hnone other ((wins_congr hperm).mp hwins), best,
      hlead.of_perm hperm.symm, (hperm.countP_eq _).symm⟩

/-- **What is chosen among accepted candidates.** Nobody is chosen from an empty list; an entry is
chosen exactly when every other one has a worse weight or, where the mask asks for it, an equally
ranking weight and a greater distance; otherwise there is a tie of all entries whose weight ranks
equally with the best. The outcome is the same for every order of the list. -/
theorem select_decides (access : Access) (accepted : List Accepted) :
    (select access accepted = .nobody ↔ accepted = []) ∧
    (∀ best, select access accepted = .winner best ↔
      ∃ before after, accepted = before ++ best :: after ∧ ∀ other ∈ before ++ after,
        best.fit.weight.isBetter other.fit.weight ∨ access.contains Access.topHierarchy ∧
          best.compareWeight other = .eq ∧ best.depth < other.depth) ∧
    (∀ count, select access accepted = .tie count ↔
      (∀ other, select access accepted ≠ .winner other) ∧ ∃ best ∈ accepted,
        (∀ other ∈ accepted, ¬ other.fit.weight.isBetter best.fit.weight) ∧
        count = accepted.countP fun other => best.compareWeight other == .eq) ∧
    ∀ reordered, reordered.Perm accepted →
      select access reordered = select access accepted := by
  refine ⟨select_eq_nobody_iff, fun best => select_eq_winner_iff, fun count => ?_,
    fun reordered => select_perm⟩
  rw [select_eq_tie_iff]
  refine and_congr (forall_congr' fun other => not_congr select_eq_winner_iff.symm) ?_
  refine exists_congr fun best => ⟨?_, ?_⟩
  · rintro ⟨hlead, hcount⟩
    exact ⟨hlead.mem, fun other hmem => not_isBetter_iff.mpr (hlead.isLE other hmem), hcount⟩
  · rintro ⟨hmem, hbest, hcount⟩
    exact ⟨⟨hmem, fun other hother => not_isBetter_iff.mp (hbest other hother)⟩, hcount⟩

end Select

end CallSite
