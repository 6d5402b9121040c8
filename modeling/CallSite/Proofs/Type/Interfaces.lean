import CallSite.Proofs.Type.Commute
import CallSite.Proofs.Type.Stable
import CallSite.Type.Walk
import Mathlib.Algebra.Order.BigOperators.Group.Finset

/-!
# The interfaces of a type, and their order

What is on the stack of a walk to interfaces may be there more than once, and what a type declares
is put there when the type is found and never again. So each turn uses up one link to an interface
(`Store.linksAhead_append`), the walk comes to an end however the interfaces refer to each other,
and what holds of it can be shown turn by turn (`Store.stack_induction`).

The order of what is listed decides which interface a match tries first. Whatever is found through
the type itself comes before what is found through its base, and has been found with everything that
it leads to. So a type that was found before is passed over later on with all that stands above it,
and the interfaces of the base follow in their own order (`Store.foldl_visitInterface_behind`).

The walk from base to base has no such measure. It remembers nothing, so it returns only where the
chain of bases ends (`Store.exists_followBases_iff`).
-/

namespace CallSite

namespace Store

variable {s : Store}

/-! ### Turn by turn -/

/-- **The links to interfaces that a walk has not used**: those of the types that it has not
found. -/
def linksAhead (s : Store) (found : List TypeId) : Nat :=
  ∑ i ∈ (Finset.range s.size).filter fun i => (⟨i⟩ : TypeId) ∉ found, (s.info ⟨i⟩).interfaces.length

/-- What is found uses up its links. -/
theorem linksAhead_append {found : List TypeId} {t : TypeId} (ht : s.Holds t) (hnew : t ∉ found) :
    (s.info t).interfaces.length + s.linksAhead (found ++ [t]) = s.linksAhead found := by
  have hsplit : (Finset.range s.size).filter (fun i => (⟨i⟩ : TypeId) ∉ found) =
      insert t.index ((Finset.range s.size).filter fun i => (⟨i⟩ : TypeId) ∉ found ++ [t]) := by
    ext i
    have hi : (⟨i⟩ : TypeId) = t ↔ i = t.index := ⟨fun h => h ▸ rfl, fun h => h ▸ rfl⟩
    simp only [Finset.mem_filter, Finset.mem_range, Finset.mem_insert, List.mem_append,
      List.mem_singleton, not_or, hi]
    constructor
    · rintro ⟨hlt, hnot⟩
      by_cases h : i = t.index
      · exact .inl h
      · exact .inr ⟨hlt, hnot, h⟩
    · rintro (rfl | ⟨hlt, hnot, -⟩)
      · exact ⟨ht, hnew⟩
      · exact ⟨hlt, hnot⟩
  rw [linksAhead, linksAhead, hsplit, Finset.sum_insert]
  simp

theorem linksAhead_le (s : Store) (found : List TypeId) : s.linksAhead found ≤ s.linksAhead [] :=
  Finset.sum_le_sum_of_subset fun i hi => by simpa using (Finset.mem_filter.mp hi).1

/-- No type has more links than there are. -/
theorem length_interfaces_le (s : Store) (t : TypeId) :
    (s.info t).interfaces.length ≤ s.linksAhead [] := by
  by_cases ht : s.Holds t
  · have := linksAhead_append ht List.not_mem_nil
    omega
  · rw [info_of_not_holds ht]
    exact Nat.zero_le _

/-- **Induction on a walk**: a type that was found is dropped from the stack, and one that was not
is found and replaced by its interfaces. -/
theorem stack_induction (hs : s.WellFormed) {P : List TypeId → List TypeId → Prop}
    (nil : ∀ found, P found [])
    (skip : ∀ found t stack, t ∈ found → P found stack → P found (t :: stack))
    (enter : ∀ found t stack, s.Holds t → t ∉ found →
      P (found ++ [t]) ((s.info t).interfaces ++ stack) → P found (t :: stack))
    {found stack : List TypeId} (hstack : ∀ t ∈ stack, s.Holds t) : P found stack := by
  induction hturns : stack.length + s.linksAhead found generalizing found stack with
  | zero =>
    obtain rfl : stack = [] := List.length_eq_zero_iff.mp (by omega)
    exact nil found
  | succ turns ih =>
    cases stack with
    | nil => exact nil found
    | cons t stack =>
      have ht := hstack t List.mem_cons_self
      have hrest : ∀ u ∈ stack, s.Holds u := fun u hu => hstack u (List.mem_cons_of_mem t hu)
      rw [List.length_cons] at hturns
      by_cases hfound : t ∈ found
      · exact skip found t stack hfound (ih hrest (by omega))
      · have hlinks := linksAhead_append ht hfound
        refine enter found t stack ht hfound (ih (fun u hu => ?_) ?_)
        · rcases List.mem_append.mp hu with hu | hu
          · exact hs.holds_above (TypeInfo.interface_mem_above hu)
          · exact hrest u hu
        · rw [List.length_append]
          omega

/-! ### The walk without a bound -/

section Visits

variable (hs : s.WellFormed)

theorem visitInterface_of_mem {depth : Nat} {found : List TypeId} {t : TypeId} (h : t ∈ found) :
    s.visitInterface depth found t = found := by
  cases depth with
  | zero => rfl
  | succ depth => rw [visitInterface, if_pos h]

theorem foldl_visitInterface_of_subset {depth : Nat} {found items : List TypeId}
    (h : ∀ t ∈ items, t ∈ found) : items.foldl (s.visitInterface depth) found = found := by
  induction items with
  | nil => rfl
  | cons t items ih =>
    rw [List.foldl_cons, visitInterface_of_mem (h t List.mem_cons_self)]
    exact ih fun u hu => h u (List.mem_cons_of_mem t hu)

include hs

/-- **The bound is never met**: a walk to a new type goes on to its interfaces as deep as it was
allowed to go before. -/
theorem visitInterface_of_notMem {found : List TypeId} {t : TypeId} (ht : s.Holds t)
    (hnew : t ∉ found) : s.visitInterface s.size found t =
      (s.info t).interfaces.foldl (s.visitInterface s.size) (found ++ [t]) := by
  have hlt := unmet_lt (List.subset_append_left found [t]) ht hnew
    (List.mem_append_right _ (List.mem_singleton_self t))
  have hle : s.unmet found ≤ s.size := s.unmet_nil ▸ unmet_le (List.nil_subset found)
  obtain ⟨depth, hdepth⟩ : ∃ depth, s.size = depth + 1 := ⟨s.size - 1, by omega⟩
  rw [hdepth] at hle ⊢
  rw [visitInterface, if_neg hnew]
  exact (foldl_visitInterface_of_extends hs (visitInterface_of_extends hs (.refl s))
    (fun u hu => hs.holds_above (TypeInfo.interface_mem_above hu)) (by omega) (by omega)).symm

/-- To walk to a new type and then to others is to walk to its interfaces and then to the others. -/
theorem foldl_visitInterface_cons {found stack : List TypeId} {t : TypeId} (ht : s.Holds t)
    (hnew : t ∉ found) : (t :: stack).foldl (s.visitInterface s.size) found =
      ((s.info t).interfaces ++ stack).foldl (s.visitInterface s.size) (found ++ [t]) := by
  rw [List.foldl_cons, visitInterface_of_notMem hs ht hnew, List.foldl_append]

/-- **The stack finds what the walk finds**, in as many turns as there are types on the stack and
links ahead. -/
theorem emptyStack_eq {found stack : List TypeId} (hstack : ∀ t ∈ stack, s.Holds t) {turns : Nat}
    (hturns : stack.length + s.linksAhead found ≤ turns) :
    s.emptyStack turns found stack = some (stack.foldl (s.visitInterface s.size) found) := by
  refine stack_induction hs (P := fun found stack => ∀ turns,
    stack.length + s.linksAhead found ≤ turns → s.emptyStack turns found stack =
      some (stack.foldl (s.visitInterface s.size) found)) ?_ ?_ ?_ hstack turns hturns
  · intro found turns _
    cases turns <;> rfl
  · intro found t stack hfound ih turns hturns
    rw [List.length_cons] at hturns
    obtain ⟨turns, rfl⟩ : ∃ k, turns = k + 1 := ⟨turns - 1, by omega⟩
    rw [emptyStack, if_pos hfound, ih turns (by omega), List.foldl_cons,
      visitInterface_of_mem hfound]
  · intro found t stack ht hnew ih turns hturns
    have hlinks := linksAhead_append ht hnew
    rw [List.length_cons] at hturns
    obtain ⟨turns, rfl⟩ : ∃ k, turns = k + 1 := ⟨turns - 1, by omega⟩
    rw [emptyStack, if_neg hnew, ih turns (by rw [List.length_append]; omega),
      foldl_visitInterface_cons hs ht hnew]

/-- A walk finds nothing twice. -/
theorem nodup_foldl_visitInterface {found stack : List TypeId} (hstack : ∀ t ∈ stack, s.Holds t)
    (hfound : found.Nodup) : (stack.foldl (s.visitInterface s.size) found).Nodup := by
  refine stack_induction hs (P := fun found stack => found.Nodup →
    (stack.foldl (s.visitInterface s.size) found).Nodup) ?_ ?_ ?_ hstack hfound
  · exact fun _ h => h
  · intro found t stack hin ih hfound
    rw [List.foldl_cons, visitInterface_of_mem hin]
    exact ih hfound
  · intro found t stack ht hnew ih hfound
    rw [foldl_visitInterface_cons hs ht hnew]
    refine ih (List.nodup_append.mpr ⟨hfound, List.nodup_singleton t, ?_⟩)
    rintro u hu v hv rfl
    exact hnew (List.mem_singleton.mp hv ▸ hu)

/-- **A walk behind what was found with everything above it** finds what it would find without that,
in the same order. -/
theorem foldl_visitInterface_behind {before : List TypeId}
    (hclosed : ∀ t ∈ before, ∀ u, s.Declares t u → u ∈ before) {found stack : List TypeId}
    (hstack : ∀ t ∈ stack, s.Holds t) :
    stack.foldl (s.visitInterface s.size) (before ++ found.filter (· ∉ before)) =
      before ++ (stack.foldl (s.visitInterface s.size) found).filter (· ∉ before) := by
  refine stack_induction hs (P := fun found stack =>
    stack.foldl (s.visitInterface s.size) (before ++ found.filter (· ∉ before)) =
      before ++ (stack.foldl (s.visitInterface s.size) found).filter (· ∉ before)) ?_ ?_ ?_ hstack
  · exact fun _ => rfl
  · intro found t stack hfound ih
    have hin : t ∈ before ++ found.filter (· ∉ before) := by
      by_cases hbefore : t ∈ before
      · exact List.mem_append_left _ hbefore
      · exact List.mem_append_right _ (List.mem_filter.mpr ⟨hfound, by simpa using hbefore⟩)
    rw [List.foldl_cons, List.foldl_cons, visitInterface_of_mem hin, visitInterface_of_mem hfound,
      ih]
  · intro found t stack ht hnew ih
    rw [foldl_visitInterface_cons hs ht hnew, ← ih, List.filter_append]
    by_cases hbefore : t ∈ before
    · -- Whatever the one walk finds above the type the other has found already.
      have hall : ∀ u ∈ (s.info t).interfaces,
          u ∈ before ++ (found.filter (· ∉ before) ++ [t].filter (· ∉ before)) := fun u hu =>
        List.mem_append_left _ (hclosed t hbefore u hu)
      rw [List.foldl_append, foldl_visitInterface_of_subset hall, List.foldl_cons,
        visitInterface_of_mem (List.mem_append_left _ hbefore)]
      simp [hbefore]
    · have hnot : t ∉ before ++ found.filter (· ∉ before) := by
        simp [hbefore, hnew]
      rw [foldl_visitInterface_cons hs ht hnot, List.append_assoc]
      simp [hbefore]

end Visits

/-! ### The chain of bases -/

/-- **Without cycles the ancestors are a chain that ends.** What was met before leads to the type,
so its base is none of it. -/
theorem baseChain_ancestorsWithin (hacyclic : ∀ t, ¬ Relation.TransGen s.BaseOf t t) {n : Nat}
    {met : List TypeId} {t : TypeId} (hmet : ∀ a ∈ met, Relation.TransGen s.BaseOf a t)
    (hn : s.unmet met ≤ n) : s.BaseChain t (s.ancestorsWithin n met t) := by
  have hnew : t ∉ met := fun h => hacyclic t (hmet t h)
  induction n generalizing met t with
  | zero =>
    have ht : ¬ s.Holds t := fun ht => by
      have := unmet_lt (List.subset_cons_self t met) ht hnew List.mem_cons_self
      omega
    refine .last ?_
    rw [info_of_not_holds ht]
    rfl
  | succ n ih =>
    rw [ancestorsWithin]
    cases hb : (s.info t).base with
    | none => exact .last hb
    | some b =>
      have ht : s.Holds t := by
        refine not_not.mp fun hcon => ?_
        rw [info_of_not_holds hcon] at hb
        cases hb
      have hlt := unmet_lt (List.subset_cons_self t met) ht hnew List.mem_cons_self
      have hleads : ∀ a ∈ t :: met, Relation.TransGen s.BaseOf a b := by
        intro a ha
        rcases List.mem_cons.mp ha with rfl | ha
        · exact .single hb
        · exact (hmet a ha).tail hb
      have hb' : b ∉ t :: met := fun h => hacyclic b (hleads b h)
      dsimp only
      rw [if_neg hb']
      exact .step hb (ih hleads (by omega) hb')

theorem baseChain_ancestors (hacyclic : ∀ t, ¬ Relation.TransGen s.BaseOf t t) (t : TypeId) :
    s.BaseChain t (s.ancestors t) :=
  baseChain_ancestorsWithin hacyclic (fun _ h => absurd h List.not_mem_nil)
    (s.unmet_nil ▸ Nat.le_refl _)

/-- The ancestors of a type with a base are the type and the ancestors of the base. -/
theorem ancestors_of_base (hacyclic : ∀ t, ¬ Relation.TransGen s.BaseOf t t) {t b : TypeId}
    (hb : s.BaseOf t b) : s.ancestors t = t :: s.ancestors b :=
  (BaseChain.step hb (baseChain_ancestors hacyclic b)).ancestors_eq

theorem length_ancestorsWithin_le (n : Nat) (met : List TypeId) (t : TypeId) :
    (s.ancestorsWithin n met t).length ≤ n + 1 := by
  induction n generalizing met t with
  | zero => exact Nat.le_refl _
  | succ n ih =>
    rw [ancestorsWithin, List.length_cons]
    refine Nat.succ_le_succ ?_
    split
    · exact Nat.zero_le _
    · split
      · exact Nat.zero_le _
      · exact ih _ _

theorem followBases_of_base_eq_none {t : TypeId} (hb : (s.info t).base = none) (turns : Nat)
    (met : List TypeId) : s.followBases turns met (s.info t).base = some met := by
  rw [hb]
  cases turns <;> rfl

/-- **A chain that ends is followed to its end**, in as many turns as it has bases. -/
theorem followBases_eq {t : TypeId} {l : List TypeId} (h : s.BaseChain t l) {turns : Nat}
    (hturns : l.length ≤ turns + 1) (met : List TypeId) :
    s.followBases turns (met ++ [t]) (s.info t).base = some (met ++ l) := by
  induction h generalizing turns met with
  | last hnone => exact followBases_of_base_eq_none hnone turns _
  | @step t b l hb hchain ih =>
    rw [List.length_cons] at hturns
    have hpos : 0 < l.length := List.length_pos_of_mem hchain.head_mem
    obtain ⟨turns, rfl⟩ : ∃ k, turns = k + 1 := ⟨turns - 1, by omega⟩
    rw [hb, followBases, ih (by omega) (met ++ [t]), List.append_assoc, List.singleton_append]

/-- **Only a chain that ends is followed to its end.** -/
theorem baseChain_of_followBases {turns : Nat} (met : List TypeId) {l : List TypeId} {t : TypeId}
    (h : s.followBases turns (met ++ [t]) (s.info t).base = some l) :
    ∃ chain, l = met ++ chain ∧ s.BaseChain t chain := by
  induction turns generalizing met t with
  | zero =>
    cases hb : (s.info t).base with
    | none => exact ⟨[t], Option.some.inj (h.symm.trans (followBases_of_base_eq_none hb 0 _)),
      .last hb⟩
    | some b =>
      rw [hb] at h
      cases h
  | succ turns ih =>
    cases hb : (s.info t).base with
    | none =>
      exact ⟨[t], Option.some.inj (h.symm.trans (followBases_of_base_eq_none hb (turns + 1) _)),
        .last hb⟩
    | some b =>
      rw [hb, followBases] at h
      obtain ⟨chain, rfl, hchain⟩ := ih _ h
      exact ⟨t :: chain, by rw [List.append_assoc, List.singleton_append], .step hb hchain⟩

/-- **The loop over bases returns where the chain of bases ends**, and then it returns the
ancestors. On a cycle no number of turns is enough. -/
theorem exists_followBases_iff {t : TypeId} {l : List TypeId} :
    (∃ turns, s.followBases turns [t] (s.info t).base = some l) ↔
      s.BaseChain t l ∧ l = s.ancestors t := by
  refine ⟨fun ⟨turns, h⟩ => ?_, fun ⟨h, _⟩ => ⟨l.length, followBases_eq h (Nat.le_succ _) []⟩⟩
  obtain ⟨chain, rfl, hchain⟩ := baseChain_of_followBases [] h
  exact ⟨hchain, hchain.ancestors_eq.symm⟩

/-! ### All interfaces -/

section Interfaces

variable (hs : s.WellFormed) (hacyclic : ∀ t, ¬ Relation.TransGen s.BaseOf t t)

include hs

theorem holds_interfaces (t : TypeId) : ∀ u ∈ (s.info t).interfaces, s.Holds u :=
  fun _ hu => hs.holds_above (TypeInfo.interface_mem_above hu)

theorem foldlM_emptyStack_eq {turns : Nat} (hturns : 2 * s.linksAhead [] ≤ turns)
    (chain found : List TypeId) :
    chain.foldlM (fun found a => s.emptyStack turns found (s.info a).interfaces) found =
      some (chain.foldl s.visitInterfaces found) := by
  induction chain generalizing found with
  | nil => rfl
  | cons a chain ih =>
    have hlength := s.length_interfaces_le a
    have hlinks := s.linksAhead_le found
    rw [List.foldlM_cons, emptyStack_eq hs (holds_interfaces hs a) (by omega), List.foldl_cons]
    exact ih _

theorem nodup_allInterfaces (t : TypeId) : (s.allInterfaces t).Nodup := by
  have hall : ∀ chain found : List TypeId, found.Nodup →
      (chain.foldl s.visitInterfaces found).Nodup := by
    intro chain
    induction chain with
    | nil => exact fun _ h => h
    | cons a chain ih =>
      exact fun found h => ih _ (nodup_foldl_visitInterface hs (holds_interfaces hs a) h)
  exact hall _ _ List.nodup_nil

/-- What is found through a type itself is what its links lead to. -/
theorem mem_visitInterfaces_iff {t f : TypeId} :
    f ∈ s.visitInterfaces [] t ↔ Relation.TransGen s.Declares t f := by
  obtain ⟨hcomplete, hall⟩ := completes_visitInterfaces hs [] t
  constructor
  · intro h
    rcases mem_foldl_cases (P := fun u x => Relation.ReflTransGen s.Declares u x)
      (fun _ _ _ => declares_of_mem_visitInterface) h with h | ⟨u, hu, hf⟩
    · exact absurd h List.not_mem_nil
    · exact .head' hu hf
  · intro h
    induction h with
    | single hu => exact hall _ hu
    | tail _ hu ih => exact hcomplete.declared ih List.not_mem_nil hu

include hacyclic

/-- **The loops list all interfaces**, in as many turns as there are types and links. -/
theorem gatherInterfaces_eq {turns : Nat} (hturns : s.size + 2 * s.linksAhead [] ≤ turns)
    (t : TypeId) : s.gatherInterfaces turns t = some (s.allInterfaces t) := by
  have hchain := baseChain_ancestors hacyclic t
  have hlength : (s.ancestors t).length ≤ turns + 1 :=
    (length_ancestorsWithin_le s.size [] t).trans (by omega)
  have hfollow := followBases_eq hchain hlength []
  rw [List.nil_append, List.nil_append] at hfollow
  rw [gatherInterfaces, hfollow]
  exact foldlM_emptyStack_eq hs (by omega) (s.ancestors t) []

/-- **What a type finds through itself comes first**, and what its base finds follows in its
order. -/
theorem allInterfaces_of_base {t b : TypeId} (hb : s.BaseOf t b) : s.allInterfaces t =
    s.visitInterfaces [] t ++ (s.allInterfaces b).filter (· ∉ s.visitInterfaces [] t) := by
  have hclosed : ∀ u ∈ s.visitInterfaces [] t, ∀ v, s.Declares u v →
      v ∈ s.visitInterfaces [] t := fun u hu v hv =>
    (mem_visitInterfaces_iff hs).mpr (((mem_visitInterfaces_iff hs).mp hu).tail hv)
  have hbehind : ∀ chain found : List TypeId,
      chain.foldl s.visitInterfaces
          (s.visitInterfaces [] t ++ found.filter (· ∉ s.visitInterfaces [] t)) =
        s.visitInterfaces [] t ++
          (chain.foldl s.visitInterfaces found).filter (· ∉ s.visitInterfaces [] t) := by
    intro chain
    induction chain with
    | nil => exact fun _ => rfl
    | cons a chain ih =>
      intro found
      have hone : s.visitInterfaces
          (s.visitInterfaces [] t ++ found.filter (· ∉ s.visitInterfaces [] t)) a =
          s.visitInterfaces [] t ++
            (s.visitInterfaces found a).filter (· ∉ s.visitInterfaces [] t) :=
        foldl_visitInterface_behind hs hclosed (holds_interfaces hs a)
      rw [List.foldl_cons, hone, List.foldl_cons]
      exact ih _
  have h := hbehind (s.ancestors b) []
  rw [List.filter_nil, List.append_nil] at h
  rw [allInterfaces, ancestors_of_base hacyclic hb, List.foldl_cons]
  exact h

end Interfaces

/-- **The interfaces of a type are what its ancestors lead to.** Where bases run in no cycle, the
loops that list them come to an end, however the interfaces refer to each other. Every type that is
reached from an ancestor by one or more links to interfaces is listed, once, and no other; the base
of an interface is not followed. Behind a type that has a base stands what its own links lead to,
and then the interfaces of the base that are not among these, in the order in which the base lists
them. -/
theorem allInterfaces_exact {allowed : Store → Operation → Prop} {s : Store}
    (hreach : s.Reachable allowed) (hacyclic : ∀ t, ¬ Relation.TransGen s.BaseOf t t) (t : TypeId) :
    (∀ turns, s.size + 2 * s.linksAhead [] ≤ turns →
      s.gatherInterfaces turns t = some (s.allInterfaces t)) ∧
    (s.allInterfaces t).Nodup ∧
    (∀ f, f ∈ s.allInterfaces t ↔
      ∃ a, Relation.ReflTransGen s.BaseOf t a ∧ Relation.TransGen s.Declares a f) ∧
    ∀ b, s.BaseOf t b → ∃ own : List TypeId, own.Nodup ∧
      (∀ f, f ∈ own ↔ Relation.TransGen s.Declares t f) ∧
      s.allInterfaces t = own ++ (s.allInterfaces b).filter (· ∉ own) := by
  have hs := hreach.wellFormed
  refine ⟨fun turns hturns => gatherInterfaces_eq hs hacyclic hturns t, nodup_allInterfaces hs t,
    fun f => ?_, fun b hb => ⟨s.visitInterfaces [] t,
      nodup_foldl_visitInterface hs (holds_interfaces hs t) List.nodup_nil,
      fun f => mem_visitInterfaces_iff hs, allInterfaces_of_base hs hacyclic hb⟩⟩
  rw [mem_allInterfaces_iff hs]
  refine exists_congr fun a => and_congr (mem_ancestors_iff hs) ?_
  rw [Relation.TransGen.head'_iff]

/-- A run that defines two interfaces which refer to each other, a third one, a class that declares
the first and the third, and a class above which that one stands and which declares the second. -/
def crossedRun : List Operation :=
  [.define "I" .interfaceKind [], .define "J" .interfaceKind [], .addInterface ⟨27⟩ ⟨28⟩,
    .addInterface ⟨28⟩ ⟨27⟩, .define "K" .interfaceKind [], .define "Base" .classKind [],
    .addInterface ⟨30⟩ ⟨27⟩, .addInterface ⟨30⟩ ⟨29⟩, .define "Derived" .classKind [],
    .setBase ⟨31⟩ ⟨30⟩, .addInterface ⟨31⟩ ⟨28⟩]

/-- What is derived lists the second interface, which leads to the first, and only then what is left
of the interfaces of its base. -/
theorem allInterfaces_exact_crossed :
    ∃ s : Store, s = Store.initial.afterAll crossedRun ∧ s.BaseOf ⟨31⟩ ⟨30⟩ ∧
      s.allInterfaces ⟨30⟩ = [⟨27⟩, ⟨28⟩, ⟨29⟩] ∧ Relation.TransGen s.Declares ⟨28⟩ ⟨28⟩ ∧
      (∃ turns, s.gatherInterfaces turns ⟨31⟩ = some [⟨28⟩, ⟨27⟩, ⟨29⟩]) ∧
      ∃ own : List TypeId, (∀ f, f ∈ own ↔ Relation.TransGen s.Declares ⟨31⟩ f) ∧
        s.allInterfaces ⟨31⟩ = own ++ [⟨27⟩, ⟨28⟩, ⟨29⟩].filter (· ∉ own) := by
  obtain ⟨s, hs, hreach, hbases, hbase, hlists, hdeclares⟩ : ∃ s : Store,
      s = Store.initial.afterAll crossedRun ∧ s.Reachable (fun s op => op.Scoped s) ∧
      (∀ i < s.size, (s.info ⟨i⟩).base.all fun b => b.index < i) ∧
      (s.info ⟨31⟩).base = some ⟨30⟩ ∧
      (s.allInterfaces ⟨30⟩ = [⟨27⟩, ⟨28⟩, ⟨29⟩] ∧ s.allInterfaces ⟨31⟩ = [⟨28⟩, ⟨27⟩, ⟨29⟩]) ∧
      ⟨27⟩ ∈ (s.info ⟨28⟩).interfaces ∧ ⟨28⟩ ∈ (s.info ⟨27⟩).interfaces :=
    ⟨_, rfl, .of_scopedRun (by decide +kernel), by decide +kernel⟩
  obtain ⟨hgather, -, -, hbehind⟩ := allInterfaces_exact hreach (acyclic_of_base_lt hbases) ⟨31⟩
  obtain ⟨own, -, hmem, hown⟩ := hbehind ⟨30⟩ hbase
  rw [hlists.1] at hown
  exact ⟨s, hs, hbase, hlists.1, .head hdeclares.1 (.single hdeclares.2),
    ⟨_, (hgather _ le_rfl).trans (congrArg some hlists.2)⟩, own, hmem, hown⟩

end Store

end CallSite
