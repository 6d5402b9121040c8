import CallSite.Proofs.List
import CallSite.Proofs.Type.WellFormed
import CallSite.Type.Hierarchy
import Mathlib.Data.Finset.Card
import Mathlib.Data.List.Chain
import Mathlib.Logic.Relation

/-!
# What stands above a type

`Store.ancestors` and `Store.allInterfaces` list what can be reached from a type: by steps to the
base, and then by steps to a declared interface. In a well-formed store everything that is reached
is held, and in a scoped one it mentions only parameters that the type mentions.

Both walks are bounded by the number of types, and both go to no type twice. So the bound is never
met: what a walk has not met yet becomes less with each step (`Store.unmet`), and at the end nothing
is left out (`Store.mem_allInterfaces_iff`).
-/

namespace CallSite

namespace Store

variable {s : Store}

/-- The base of a type. -/
def BaseOf (s : Store) (t b : TypeId) : Prop :=
  (s.info t).base = some b

/-- An interface that a type declares. -/
def Declares (s : Store) (t u : TypeId) : Prop :=
  u ∈ (s.info t).interfaces

/-- **What is reached upwards** from a type, by bases and interfaces. -/
def Upward (s : Store) : TypeId → TypeId → Prop :=
  Relation.ReflTransGen fun t u => u ∈ (s.info t).above

theorem upward_of_bases {t a : TypeId} (h : Relation.ReflTransGen s.BaseOf t a) :
    s.Upward t a :=
  h.lift id fun _ _ => TypeInfo.base_mem_above

theorem upward_of_declares {t u : TypeId} (h : Relation.ReflTransGen s.Declares t u) :
    s.Upward t u :=
  h.lift id fun _ _ => TypeInfo.interface_mem_above

/-! ### What is listed is reached -/

theorem bases_of_mem_ancestorsWithin {n : Nat} {met : List TypeId} {t a : TypeId}
    (h : a ∈ s.ancestorsWithin n met t) : Relation.ReflTransGen s.BaseOf t a := by
  induction n generalizing met t with
  | zero =>
    obtain rfl := List.mem_singleton.mp h
    exact .refl
  | succ n ih =>
    rcases List.mem_cons.mp h with rfl | h
    · exact .refl
    · cases hb : (s.info t).base with
      | none =>
        rw [hb] at h
        cases h
      | some b =>
        rw [hb] at h
        dsimp only at h
        split at h
        · cases h
        · exact .head hb (ih h)

theorem declares_of_mem_visitInterface {depth : Nat} {found : List TypeId} {t u : TypeId}
    (h : u ∈ s.visitInterface depth found t) :
    u ∈ found ∨ Relation.ReflTransGen s.Declares t u := by
  induction depth generalizing found t u with
  | zero => exact .inl h
  | succ depth ih =>
    rw [visitInterface] at h
    split at h
    case isTrue => exact .inl h
    case isFalse =>
      rcases mem_foldl_cases (P := fun v x => Relation.ReflTransGen s.Declares v x)
        (fun found v x hx => ih hx) h with h | ⟨v, hv, hu⟩
      · rcases List.mem_append.mp h with h | h
        · exact .inl h
        · obtain rfl := List.mem_singleton.mp h
          exact .inr .refl
      · exact .inr (.head hv hu)

theorem declares_of_mem_allInterfaces {t f : TypeId} (h : f ∈ s.allInterfaces t) :
    ∃ a ∈ s.ancestors t, ∃ u, s.Declares a u ∧ Relation.ReflTransGen s.Declares u f := by
  have hvisit : ∀ found a x, x ∈ s.visitInterfaces found a →
      x ∈ found ∨ ∃ u, s.Declares a u ∧ Relation.ReflTransGen s.Declares u x := by
    intro found a x hx
    rcases mem_foldl_cases (P := fun v x => Relation.ReflTransGen s.Declares v x)
      (fun found v x hx => declares_of_mem_visitInterface hx) hx with hx | ⟨u, hu, hx⟩
    · exact .inl hx
    · exact .inr ⟨u, hu, hx⟩
  rcases mem_foldl_cases hvisit h with h | h
  · cases h
  · exact h

theorem reached_of_mem_allInterfaces {t f : TypeId} (h : f ∈ s.allInterfaces t) :
    ∃ a u, Relation.ReflTransGen s.BaseOf t a ∧ s.Declares a u ∧
      Relation.ReflTransGen s.Declares u f := by
  obtain ⟨a, ha, u, hu, hf⟩ := declares_of_mem_allInterfaces h
  exact ⟨a, u, bases_of_mem_ancestorsWithin ha, hu, hf⟩

theorem upward_of_mem_ancestors {t a : TypeId} (h : a ∈ s.ancestors t) : s.Upward t a :=
  upward_of_bases (bases_of_mem_ancestorsWithin h)

theorem upward_of_mem_allInterfaces {t f : TypeId} (h : f ∈ s.allInterfaces t) : s.Upward t f := by
  obtain ⟨a, u, ha, hu, hf⟩ := reached_of_mem_allInterfaces h
  exact (upward_of_bases ha).trans (.head (TypeInfo.interface_mem_above hu) (upward_of_declares hf))

/-! ### Nothing is left out -/

/-- How many types a walk has not met yet. -/
def unmet (s : Store) (met : List TypeId) : Nat :=
  ((Finset.range s.size).filter fun i => (⟨i⟩ : TypeId) ∉ met).card

theorem unmet_nil (s : Store) : s.unmet [] = s.size := by
  simp [unmet]

theorem unmet_le {met met' : List TypeId} (h : met ⊆ met') : s.unmet met' ≤ s.unmet met :=
  Finset.card_le_card fun _ hi => by
    rw [Finset.mem_filter] at hi ⊢
    exact ⟨hi.1, fun hm => hi.2 (h hm)⟩

/-- **A step to a type that was not met** leaves fewer to be met. -/
theorem unmet_lt {met met' : List TypeId} (h : met ⊆ met') {t : TypeId} (ht : s.Holds t)
    (hnot : t ∉ met) (hin : t ∈ met') : s.unmet met' < s.unmet met := by
  refine Finset.card_lt_card (Finset.ssubset_iff_subset_ne.mpr ⟨fun i hi => ?_, fun heq => ?_⟩)
  · rw [Finset.mem_filter] at hi ⊢
    exact ⟨hi.1, fun hm => hi.2 (h hm)⟩
  · have hmem : t.index ∈ (Finset.range s.size).filter fun i => (⟨i⟩ : TypeId) ∉ met :=
      Finset.mem_filter.mpr ⟨Finset.mem_range.mpr ht, hnot⟩
    rw [← heq, Finset.mem_filter] at hmem
    exact hmem.2 hin

/-! ### The chain of bases -/

/-- The list of ancestors begins with the type and goes on from each type to its base. -/
theorem isChain_ancestorsWithin (n : Nat) (met : List TypeId) (t : TypeId) :
    (s.ancestorsWithin n met t).head? = some t ∧
      (s.ancestorsWithin n met t).IsChain s.BaseOf := by
  induction n generalizing met t with
  | zero => exact ⟨rfl, .singleton t⟩
  | succ n ih =>
    rw [ancestorsWithin]
    refine ⟨rfl, ?_⟩
    split
    case h_1 => exact .singleton t
    case h_2 b hb =>
      split
      · exact .singleton t
      · obtain ⟨hhead, hchain⟩ := ih (t :: met) b
        refine List.isChain_cons.mpr ⟨fun a ha => ?_, hchain⟩
        obtain rfl := Option.some.inj (hhead.symm.trans ha)
        exact hb

/-- Nothing is left out above a type but what was met before. -/
theorem base_mem_ancestorsWithin (hs : s.WellFormed) {n : Nat} {met : List TypeId} (ht : s.Holds t)
    (hnew : t ∉ met) (hn : s.unmet met ≤ n) {a b : TypeId} (ha : a ∈ s.ancestorsWithin n met t)
    (hb : s.BaseOf a b) : b ∈ s.ancestorsWithin n met t ∨ b ∈ met := by
  induction n generalizing met t with
  | zero =>
    exact absurd (unmet_lt (List.subset_cons_self t met) ht hnew List.mem_cons_self) (by omega)
  | succ n ih =>
    have hlt := unmet_lt (List.subset_cons_self t met) ht hnew List.mem_cons_self
    rw [ancestorsWithin] at ha ⊢
    cases hbase : (s.info t).base with
    | none =>
      rw [hbase] at ha
      obtain rfl := List.mem_singleton.mp ha
      exact absurd (hbase.symm.trans hb) (Option.some_ne_none b).symm
    | some c =>
      rw [hbase] at ha
      dsimp only at ha ⊢
      split at ha
      case isTrue hmet =>
        obtain rfl := List.mem_singleton.mp ha
        obtain rfl := Option.some.inj (hbase.symm.trans hb)
        rw [if_pos hmet]
        exact (List.mem_cons.mp hmet).imp_left (List.mem_cons.mpr <| .inl ·)
      case isFalse hmet =>
        rw [if_neg hmet]
        have hfirst : c ∈ s.ancestorsWithin n (t :: met) c :=
          List.mem_of_mem_head? (isChain_ancestorsWithin n (t :: met) c).1
        rcases List.mem_cons.mp ha with rfl | ha
        · obtain rfl := Option.some.inj (hbase.symm.trans hb)
          exact .inl (List.mem_cons_of_mem _ hfirst)
        · have hc := hs.holds_above (TypeInfo.base_mem_above hbase)
          rcases ih hc hmet (by omega) ha with h | h
          · exact .inl (List.mem_cons_of_mem _ h)
          · exact (List.mem_cons.mp h).imp_left (List.mem_cons.mpr <| .inl ·)

/-- The first of the ancestors is the type itself. -/
theorem head?_ancestors (s : Store) (t : TypeId) : (s.ancestors t).head? = some t :=
  (isChain_ancestorsWithin s.size [] t).1

/-- **The ancestors of a type** are what its bases lead to. -/
theorem mem_ancestors_iff (hs : s.WellFormed) {t a : TypeId} :
    a ∈ s.ancestors t ↔ Relation.ReflTransGen s.BaseOf t a := by
  refine ⟨bases_of_mem_ancestorsWithin, fun h => ?_⟩
  by_cases ht : s.Holds t
  · induction h with
    | refl => exact List.mem_of_mem_head? (s.head?_ancestors t)
    | tail _ hb ih =>
      exact (base_mem_ancestorsWithin hs ht List.not_mem_nil (s.unmet_nil ▸ Nat.le_refl _) ih
        hb).resolve_right List.not_mem_nil
  · rcases h.cases_head with rfl | ⟨b, hb, -⟩
    · exact List.mem_of_mem_head? (s.head?_ancestors t)
    · rw [BaseOf, info_of_not_holds ht] at hb
      cases hb

/-! ### The walk through interfaces -/

/-- **A walk is complete** since some types were found: it keeps these, and whatever it has found
beside them it has found with all declared interfaces. -/
structure Completes (s : Store) (found found' : List TypeId) : Prop where
  /-- What was found is kept. -/
  subset : found ⊆ found'
  /-- The interfaces of what is new are found. -/
  declared : ∀ {t u}, t ∈ found' → t ∉ found → s.Declares t u → u ∈ found'

namespace Completes

variable {found found' found'' : List TypeId}

theorem refl (s : Store) (found : List TypeId) : s.Completes found found :=
  ⟨fun _ h => h, fun h hn => absurd h hn⟩

theorem trans (h : s.Completes found found') (h' : s.Completes found' found'') :
    s.Completes found found'' := by
  refine ⟨fun _ hx => h'.subset (h.subset hx), fun {t u} ht hn hu => ?_⟩
  by_cases hmid : t ∈ found'
  · exact h'.subset (h.declared hmid hn hu)
  · exact h'.declared ht hmid hu

/-- One walk after another, each of which finds the item that it begins with. -/
theorem foldl {β : Type} {f : List TypeId → β → List TypeId} {P : β → List TypeId → Prop}
    (hmono : ∀ b found found', P b found → found ⊆ found' → P b found') {l : List β}
    {K : List TypeId → Prop} (hok : ∀ found found', K found → found ⊆ found' → K found')
    (hstep : ∀ b ∈ l, ∀ found, K found → s.Completes found (f found b) ∧ P b (f found b))
    (hfound : K found) :
    s.Completes found (l.foldl f found) ∧ ∀ b ∈ l, P b (l.foldl f found) := by
  induction l generalizing found with
  | nil => exact ⟨.refl s found, by rintro b ⟨⟩⟩
  | cons b l ih =>
    obtain ⟨hfirst, hb⟩ := hstep b List.mem_cons_self found hfound
    obtain ⟨hrest, hall⟩ := ih (fun b' hb' => hstep b' (List.mem_cons_of_mem _ hb'))
      (hok _ _ hfound hfirst.subset)
    refine ⟨hfirst.trans hrest, fun b' hb' => ?_⟩
    rcases List.mem_cons.mp hb' with rfl | hb'
    · exact hmono _ _ _ hb hrest.subset
    · exact hall b' hb'

end Completes

/-- **A walk to an interface is complete** if it may go as deep as there are types to be met. -/
theorem completes_visitInterface (hs : s.WellFormed) {depth : Nat} {found : List TypeId}
    {t : TypeId} (ht : s.Holds t) (hdepth : s.unmet found ≤ depth) :
    s.Completes found (s.visitInterface depth found t) ∧ t ∈ s.visitInterface depth found t := by
  induction depth generalizing found t with
  | zero =>
    have hin : t ∈ found := by
      by_contra hnot
      have := unmet_lt (List.subset_cons_self t found) ht hnot List.mem_cons_self
      omega
    exact ⟨.refl s found, hin⟩
  | succ depth ih =>
    rw [visitInterface]
    split
    case isTrue hin => exact ⟨.refl s found, hin⟩
    case isFalse hnot =>
      have hsub : found ⊆ found ++ [t] := List.subset_append_left _ _
      have hin : t ∈ found ++ [t] := List.mem_append_right _ (List.mem_singleton_self t)
      have hlt := unmet_lt hsub ht hnot hin
      obtain ⟨hcomplete, hall⟩ := Completes.foldl (s := s) (f := s.visitInterface depth)
        (P := fun u found => u ∈ found) (fun _ _ _ hu h => h hu)
        (K := fun found => s.unmet found ≤ depth) (fun _ _ h hsub => Nat.le_trans (unmet_le hsub) h)
        (fun u hu found hfound => ih (hs.holds_above (TypeInfo.interface_mem_above hu)) hfound)
        (Nat.le_of_lt_succ (Nat.lt_of_lt_of_le hlt hdepth))
      refine ⟨⟨fun _ hx => hcomplete.subset (hsub hx), fun {x u} hx hn hu => ?_⟩,
        hcomplete.subset hin⟩
      by_cases hxt : x ∈ found ++ [t]
      · rcases List.mem_append.mp hxt with hx | hx
        · exact absurd hx hn
        · obtain rfl := List.mem_singleton.mp hx
          exact hall u hu
      · exact hcomplete.declared hx hxt hu

theorem completes_visitInterfaces (hs : s.WellFormed) (found : List TypeId) (t : TypeId) :
    s.Completes found (s.visitInterfaces found t) ∧
      ∀ u, s.Declares t u → u ∈ s.visitInterfaces found t :=
  Completes.foldl (P := fun u found => u ∈ found) (fun _ _ _ hu h => h hu) (K := fun _ => True)
    (fun _ _ _ _ => trivial) (fun _ hu _ _ => completes_visitInterface hs
      (hs.holds_above (TypeInfo.interface_mem_above hu))
      (s.unmet_nil ▸ unmet_le (List.nil_subset _))) trivial

/-- **All interfaces of a type are listed**: those that it or a base declares, those that these
declare, and so on. -/
theorem mem_allInterfaces_iff (hs : s.WellFormed) {t f : TypeId} :
    f ∈ s.allInterfaces t ↔ ∃ a ∈ s.ancestors t, ∃ u, s.Declares a u ∧
      Relation.ReflTransGen s.Declares u f := by
  constructor
  · exact declares_of_mem_allInterfaces
  · rintro ⟨a, ha, u, hu, hf⟩
    obtain ⟨hcomplete, hall⟩ : s.Completes [] (s.allInterfaces t) ∧
        ∀ a ∈ s.ancestors t, ∀ u, s.Declares a u → u ∈ s.allInterfaces t :=
      Completes.foldl (P := fun a found => ∀ u, s.Declares a u → u ∈ found)
        (fun _ _ _ h hsub u hu => hsub (h u hu)) (K := fun _ => True) (fun _ _ _ _ => trivial)
        (fun a _ found _ => completes_visitInterfaces hs found a) trivial
    induction hf with
    | refl => exact hall a ha u hu
    | tail _ hstep ih => exact hcomplete.declared ih List.not_mem_nil hstep

/-! ### Hierarchies without cycles -/

/-- Where every step leads to an older type there is no cycle. -/
theorem acyclic_of_index_lt {step : TypeId → TypeId → Prop}
    (hlt : ∀ {t u}, step t u → u.index < t.index) (t : TypeId) : ¬ Relation.TransGen step t t := by
  have htrans : ∀ {t u}, Relation.TransGen step t u → u.index < t.index := by
    intro t u hwalk
    induction hwalk with
    | single hstep => exact hlt hstep
    | tail _ hstep ih => exact Nat.lt_trans (hlt hstep) ih
  exact fun hcycle => Nat.lt_irrefl _ (htrans hcycle)

/-- Where every base is older than what derives from it there is no cycle. -/
theorem acyclic_of_base_lt (h : ∀ i < s.size, (s.info ⟨i⟩).base.all fun b => b.index < i)
    (t : TypeId) : ¬ Relation.TransGen s.BaseOf t t := by
  refine acyclic_of_index_lt (fun {t b} hb => ?_) t
  by_cases ht : s.Holds t
  · have := h t.index ht
    rw [show (s.info ⟨t.index⟩).base = some b from hb] at this
    simpa using this
  · rw [BaseOf, info_of_not_holds ht] at hb
    cases hb

/-! ### What holds of everything above -/

namespace Upward

variable {t u q : TypeId}

theorem holds (hs : s.WellFormed) (h : s.Upward t u) (ht : s.Holds t) : s.Holds u := by
  induction h with
  | refl => exact ht
  | tail _ hu _ => exact hs.holds_above hu

end Upward

end Store

end CallSite
