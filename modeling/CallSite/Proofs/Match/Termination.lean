import CallSite.Proofs.Match.Lockstep
import CallSite.Proofs.Match.Stable
import CallSite.Proofs.Match.Walk
import CallSite.Proofs.Type.Check
import Mathlib.Data.Finset.Card
import Mathlib.Data.Finset.Range

/-!
# Matches come to an end

No single measure decreases along a match. A parameter gives way to what is bound to it, or to its
constraints, and both may be larger than anything met before; a constraint may even mention the
parameter that it constrains. Each level of the argument needs the one before it.

* Between parameters a match is as deep as three chains, one after the other: references of the
  member are taken off, the source or the member climbs its bases, and the parts of both are
  compared, which stand lower each time (`CallSite.decides_of_le`). Interfaces may refer to each
  other in a circle, as the list of all interfaces names each of them once and nothing climbs any
  more from one of these.
* What is bound comes from the source, so it leads to no parameter with a slot where the source does
  not (`Store.ClearOf`). Against it no slot is met any more (`CallSite.decides_of_clear`).
* To check the constraints of a parameter its slot is filled first, so one slot less is empty
  (`CallSite.decides_of_emptyCount_le`).

So the depth is linear in the size of the store and in the number of empty slots
(`CallSite.search_terminates`).
-/

namespace CallSite

/-! ### Attempts that decide -/

/-- **An attempt decides**: it is accepted or refused. -/
def Attempt.Decides {α : Type} (attempt : Attempt α) : Prop :=
  attempt ≠ .unfinished

namespace Attempt.Decides

variable {α β : Type} {a : Attempt α}

theorem accepted (x : α) : (Attempt.accepted x).Decides :=
  nofun

theorem refused : (Attempt.refused : Attempt α).Decides :=
  nofun

theorem guard (condition : Bool) (x : α) : (Attempt.guard condition x).Decides := by
  unfold Attempt.guard
  split
  · exact .accepted x
  · exact .refused

theorem bind {f : α → Attempt β} (h : a.Decides) (hf : ∀ x, a = .accepted x → (f x).Decides) :
    (a.bind f).Decides := by
  cases a with
  | accepted x => exact hf x rfl
  | refused => exact .refused
  | unfinished => exact absurd rfl h

theorem map (h : a.Decides) (f : α → β) : (a.map f).Decides :=
  h.bind fun x _ => .accepted (f x)

theorem orElse {f : Unit → Attempt α} (h : a.Decides) (hf : (f ()).Decides) :
    (a.orElse f).Decides := by
  cases a with
  | accepted x => exact .accepted x
  | refused => exact hf
  | unfinished => exact absurd rfl h

/-- Going on from state to state decides where each step does, from the states that are met. -/
theorem all {Q : α → Prop} {step : β → α → Attempt α} {items : List β} {x : α} (hx : Q x)
    (hstep : ∀ b ∈ items, ∀ x, Q x → (step b x).Decides ∧ ∀ y, step b x = .accepted y → Q y) :
    (Attempt.all step items x).Decides := by
  induction items generalizing x with
  | nil => exact .accepted x
  | cons b items ih =>
    obtain ⟨hdecides, hkeeps⟩ := hstep b List.mem_cons_self x hx
    exact hdecides.bind fun y hy =>
      ih (hkeeps y hy) fun b' hb' => hstep b' (List.mem_cons_of_mem _ hb')

theorem any {step : β → α → Attempt α} {items : List β} {x : α}
    (hstep : ∀ b ∈ items, (step b x).Decides) : (Attempt.any step items x).Decides := by
  induction items with
  | nil => exact .refused
  | cons b items ih =>
    exact (hstep b List.mem_cons_self).orElse
      (ih fun b' hb' => hstep b' (List.mem_cons_of_mem _ hb'))

/-- A search reports what is decided. -/
theorem exists_report {a : Attempt Inference} (h : a.Decides) (i : Inference) :
    ∃ answer, a.report i = some answer := by
  cases a with
  | accepted j => exact ⟨_, rfl⟩
  | refused => exact ⟨_, rfl⟩
  | unfinished => exact absurd rfl h

end Attempt.Decides

/-! ### Empty slots -/

/-- The number of slots that are empty. -/
def Slots.emptyCount (slots : Slots) : Nat :=
  ((Finset.range slots.arity).filter fun k => slots.get? k = none).card

namespace Slots.Extends

variable {slots slots' : Slots}

theorem emptyCount_le (h : slots.Extends slots') : slots'.emptyCount ≤ slots.emptyCount := by
  refine Finset.card_le_card fun k hk => ?_
  rw [Finset.mem_filter, Finset.mem_range] at hk ⊢
  refine ⟨h.arity_eq ▸ hk.1, ?_⟩
  cases hget : slots.get? k with
  | none => rfl
  | some t => exact absurd ((h.get?_of_some k t hget).symm.trans hk.2) (Option.some_ne_none t)

end Slots.Extends

/-- A slot that is filled is empty no more. -/
theorem Slots.emptyCount_put_lt {slots : Slots} {position : Nat} (t : TypeId)
    (hlt : position < slots.arity) (h : slots.get? position = none) :
    (slots.put position t).emptyCount < slots.emptyCount := by
  refine Finset.card_lt_card (Finset.ssubset_iff_of_subset ?_ |>.mpr ⟨position, ?_, ?_⟩)
  · intro k hk
    rw [Finset.mem_filter, Finset.mem_range, arity_put] at hk
    refine Finset.mem_filter.mpr ⟨Finset.mem_range.mpr hk.1, ?_⟩
    by_cases hk' : position = k
    · exact hk' ▸ h
    · rw [← get?_put_of_ne slots t hk']
      exact hk.2
  · exact Finset.mem_filter.mpr ⟨Finset.mem_range.mpr hlt, h⟩
  · intro hk
    have hget := (Finset.mem_filter.mp hk).2
    rw [get?_put_self t hlt] at hget
    cases hget

namespace Inference

/-- The number of slots that are empty. -/
def emptyCount (i : Inference) : Nat :=
  i.typeSlots.emptyCount + i.methodSlots.emptyCount

theorem Extends.emptyCount_le {i j : Inference} (h : i.Extends j) : j.emptyCount ≤ i.emptyCount :=
  Nat.add_le_add h.typeSlots.emptyCount_le h.methodSlots.emptyCount_le

/-- **To fill a slot leaves one less empty.** -/
theorem emptyCount_put_lt {i : Inference} {p : GenericParameter} (t : TypeId) (ho : i.owns p)
    (h : i.bound? p = none) : (i.put p t).emptyCount < i.emptyCount := by
  unfold owns Slots.owns at ho
  unfold bound? at h
  unfold put emptyCount
  cases hp : p.owner with
  | type d =>
    simp only [hp, Bool.and_eq_true, decide_eq_true_eq] at ho h
    exact Nat.add_lt_add_right (Slots.emptyCount_put_lt t ho.2 h) _
  | method m =>
    simp only [hp, Bool.and_eq_true, decide_eq_true_eq] at ho h
    exact Nat.add_lt_add_left (Slots.emptyCount_put_lt t ho.2 h) _

end Inference

/-! ### Climbing -/

namespace Store

variable {s : Store} {t b : TypeId}

open Classical in
/-- **How far a type can climb**: the number of types that steps to bases lead to from it. -/
noncomputable def climb (s : Store) (t : TypeId) : Nat :=
  ((Finset.range s.size).filter fun k =>
    Relation.TransGen (fun t b => baseStep s t = some b) t ⟨k⟩).card

theorem climb_le (s : Store) (t : TypeId) : s.climb t ≤ s.size := by
  classical
  exact (Finset.card_filter_le _ _).trans (Finset.card_range s.size).le

/-- Without cycles the base of a type cannot climb as far as the type. -/
theorem climb_lt (hs : s.WellFormed)
    (hacyclic : ∀ t, ¬ Relation.TransGen (fun t b => baseStep s t = some b) t t) (ht : s.Holds t)
    (h : baseStep s t = some b) : s.climb b < s.climb t := by
  classical
  refine Finset.card_lt_card (Finset.ssubset_iff_of_subset ?_ |>.mpr ⟨b.index, ?_, ?_⟩)
  · intro k hk
    obtain ⟨hk, hclimbs⟩ := Finset.mem_filter.mp hk
    exact Finset.mem_filter.mpr ⟨hk, .head h hclimbs⟩
  · exact Finset.mem_filter.mpr
      ⟨Finset.mem_range.mpr (hs.inherited_holds.baseStep h ht), .single h⟩
  · exact fun hk => hacyclic b (Finset.mem_filter.mp hk).2

/-- Held types stand no higher than the store is large. -/
theorem height_le_size (ht : s.Holds t) : s.height t ≤ s.size :=
  (s.height_le t).trans ht

/-- What is handed on is handed on to parts. -/
theorem Inherited.part {P : TypeId → Prop} (hP : s.Inherited P) {u : TypeId} (hu : u ∈ s.parts t)
    (ht : P t) : P u := by
  unfold parts at hu
  cases hf : s.form t with
  | named shape d as =>
    rw [hf] at hu
    exact hP.argument (by rw [arguments_of_named hf]; exact hu) ht
  | array e rank =>
    rw [hf] at hu
    obtain rfl := List.mem_singleton.mp hu
    exact hP.element (TypeInfo.form_eq_array_iff.mp hf) ht
  | reference e =>
    rw [hf] at hu
    obtain rfl := List.mem_singleton.mp hu
    exact hP.target (TypeInfo.form_eq_reference_iff.mp hf) ht
  | parameter o k =>
    rw [hf] at hu
    cases hu

end Store

/-! ### One level -/

section Level

variable {s : Store} {r : Matcher} {source member : TypeId} {i : Inference}

theorem decides_widen
    (hinterface : ∀ f ∈ s.allInterfaces source, (r f .invariant member i).Decides)
    (hnullable : ∀ u, s.nullableUnderlying member = some u → (r source .invariant u i).Decides)
    (hbase : ∀ b, baseStep s source = some b → (r b .contravariant member i).Decides) :
    (widen s r source member i).Decides := by
  refine .orElse ?_ (.orElse ?_ ?_)
  · unfold widenToInterface
    split
    · exact .any fun f hf => (hinterface f hf).map _
    · exact .refused
  · unfold widenToNullable
    split
    case h_1 u hu =>
      split
      · exact hnullable u hu
      · exact .refused
    · exact .refused
  · unfold widenToBase
    split
    case h_1 b hb => exact (hbase b hb).map _
    · exact .refused

theorem decides_narrow
    (hinterface : ∀ f ∈ s.allInterfaces member, (r source .invariant f i).Decides)
    (hnullable : ∀ u, s.nullableUnderlying source = some u → (r u .invariant member i).Decides)
    (hbase : ∀ b, baseStep s member = some b → (r source .covariant b i).Decides) :
    (narrow s r source member i).Decides := by
  refine .orElse ?_ (.orElse ?_ ?_)
  · unfold narrowFromInterface
    split
    · exact .any fun f hf => (hinterface f hf).map _
    · exact .refused
  · unfold narrowFromNullable
    split
    case h_1 u hu =>
      split
      · exact hnullable u hu
      · exact .refused
    · exact .refused
  · unfold narrowFromBase
    split
    case h_1 b hb => exact (hbase b hb).map _
    · exact .refused

/-- **A match keeps something** of the inference while its sources have a property. -/
def Matcher.Keeps (r : Matcher) (P : TypeId → Prop) (W : Inference → Prop) : Prop :=
  ∀ source v member i j, P source → W i → r source v member i = .accepted j → W j

variable {P : TypeId → Prop} {W : Inference → Prop} (hs : s.Formed) (hP : s.Inherited P)
  (hkeeps : r.Keeps P W) (hsource : P source) (hi : W i)
  (hparts : ∀ u ∈ s.parts member, ∀ source i, P source → W i → (r source .invariant u i).Decides)

include hP hsource hi hparts

theorem decides_matchElements : (matchElements s r source member i).Decides := by
  unfold matchElements
  split
  case h_1 e rank e' rank' hshape hshape' =>
    split
    · exact hparts _ (Store.element_mem_parts (TypeInfo.form_eq_array_iff.mpr hshape')) _ _
        (hP.element hshape hsource) hi
    · exact .refused
  · exact .refused

include hs hkeeps

theorem decides_matchArguments : (matchArguments s r source member i).Decides := by
  unfold matchArguments
  split
  · dsimp only
    split
    · refine .all hi fun pair hpair x hx => ?_
      obtain ⟨hleft, hright⟩ := List.of_mem_zip hpair
      have hleft := hP.argument hleft hsource
      exact ⟨hparts _ (hs.mem_parts_of_mem_arguments hright) _ _ hleft hx,
        fun y hy => hkeeps _ _ _ _ _ hleft hx hy⟩
    · exact .refused
  · exact .refused

/-- **One level of a match decides** where the levels below it do. -/
theorem decides_matchStep {v : Variance}
    (hparameter : ∀ p, (s.info member).shape = .parameter p →
      (matchParameter s r source v member p i).Decides)
    (hreference : ∀ e, (s.info member).shape = .byRefType e → (r source v e i).Decides)
    (hvariance : (s.info member).isByRef = false →
      (matchVariance s r source v member i).Decides) :
    (matchStep s r source v member i).Decides := by
  unfold matchStep
  split
  case h_1 p hp => exact hparameter p hp
  case h_2 e he =>
    split
    · exact .accepted i
    · split
      case h_1 e' he' =>
        exact hparts _ (Store.target_mem_parts (TypeInfo.form_eq_reference_iff.mpr he)) _ _
          (hP.target he' hsource) hi
      · exact hreference e he
  case h_3 hnot =>
    split
    · exact .accepted i
    · refine (decides_matchElements hP hsource hi hparts).orElse
        ((decides_matchArguments hs hP hkeeps hsource hi hparts).orElse (hvariance ?_))
      exact TypeInfo.isByRef_eq_false_iff.mpr hnot

end Level

/-! ### From parameter to parameter -/

/-- **Matches against parameters decide** from a depth on, for sources and members of some kind. -/
def DecidesParameters (s : Store) (P Q : TypeId → Prop) (W : Inference → Prop) (room : Nat) :
    Prop :=
  ∀ depth source v member p i, room ≤ depth → P source → Q member →
    (s.info member).shape = .parameter p → W i →
    (matchParameter s (matchWithin s depth) source v member p i).Decides

section Levels

variable {s : Store} {P Q : TypeId → Prop} {W : Inference → Prop} {room : Nat} (hs : s.WellFormed)
  (hP : s.Inherited P) (hQ : s.Inherited Q) (hPheld : ∀ t, P t → s.Holds t)
  (hQheld : ∀ t, Q t → s.Holds t) (hkeeps : ∀ depth, (matchWithin s depth).Keeps P W)
  (hparameter : DecidesParameters s P Q W room)
  {depth : Nat} {source member : TypeId} {v : Variance} {i : Inference} (hsource : P source)
  (hmember : Q member) (hi : W i)

include hs hP hQ hkeeps hparameter hsource hmember hi

/-- An invariant match compares parts, and these stand lower each time. -/
theorem decides_invariant (hdepth : s.height member + room < depth) :
    (matchWithin s depth source .invariant member i).Decides := by
  induction depth generalizing source member i with
  | zero => exact absurd hdepth (Nat.not_lt_zero _)
  | succ depth ih =>
    have hparts : ∀ u ∈ s.parts member, ∀ source i, P source → W i →
        (matchWithin s depth source .invariant u i).Decides := fun u hu source i hsource hi =>
      ih hsource (hQ.part hu hmember) hi (by have := hs.toFormed.height_part hu; omega)
    exact decides_matchStep hs.toFormed hP (hkeeps depth) hsource hi hparts
      (fun p hp => hparameter depth _ _ _ p _ (by omega) hsource hmember hp hi)
      (fun e he => hparts e (Store.target_mem_parts (TypeInfo.form_eq_reference_iff.mpr he)) _ _
        hsource hi)
      fun _ => .refused

variable (hacyclic : ∀ t, ¬ Relation.TransGen (fun t b => baseStep s t = some b) t t)

include hacyclic

include hPheld in
/-- A contravariant match takes references off the member and lets the source climb. -/
theorem decides_contravariant (hdepth : s.climb source + s.height member + room + 1 < depth) :
    (matchWithin s depth source .contravariant member i).Decides := by
  induction depth generalizing source member i with
  | zero => exact absurd hdepth (Nat.not_lt_zero _)
  | succ depth ih =>
    have hinvariant : ∀ u, Q u → s.height u ≤ s.height member → ∀ source i, P source → W i →
        (matchWithin s depth source .invariant u i).Decides := fun u hu hle source i hsource hi =>
      decides_invariant hs hP hQ hkeeps hparameter hsource hu hi (by omega)
    have hlower : ∀ u ∈ s.parts member, Q u ∧ s.height u < s.height member := fun u hu =>
      ⟨hQ.part hu hmember, hs.toFormed.height_part hu⟩
    refine decides_matchStep hs.toFormed hP (hkeeps depth) hsource hi
      (fun u hu => hinvariant u (hlower u hu).1 (hlower u hu).2.le)
      (fun p hp => hparameter depth _ _ _ p _ (by omega) hsource hmember hp hi) (fun e he => ?_)
      fun _ => decides_widen (fun f hf => ?_) (fun u hu => ?_) fun b hb => ?_
    · -- The source stays where a reference is taken off the member, and the other way round below.
      obtain ⟨he, hlt⟩ := hlower e (Store.target_mem_parts (TypeInfo.form_eq_reference_iff.mpr he))
      exact ih hsource he hi (by omega)
    · exact hinvariant member hmember le_rfl _ _
        (hP.upward (Store.upward_of_mem_allInterfaces hf) hsource) hi
    · obtain ⟨hu, hlt⟩ :=
        hlower u (hs.toFormed.mem_parts_of_mem_arguments (Store.nullableUnderlying_mem hu))
      exact hinvariant u hu hlt.le _ _ hsource hi
    · have hclimb := Store.climb_lt hs hacyclic (hPheld source hsource) hb
      exact ih (hP.baseStep hb hsource) hmember hi (by omega)

variable (href : ∀ t b, baseStep s t = some b → (s.info b).isByRef = false)

include hQheld href

/-- A covariant match takes references off the member, which climbs then. -/
theorem decides_covariant (hdepth : (if (s.info member).isByRef then s.height member + s.size
      else s.climb member) + s.size + room + 1 < depth) :
    (matchWithin s depth source .covariant member i).Decides := by
  induction depth generalizing source member i with
  | zero => exact absurd hdepth (Nat.not_lt_zero _)
  | succ depth ih =>
    have hinvariant : ∀ u, Q u → ∀ source i, P source → W i →
        (matchWithin s depth source .invariant u i).Decides := fun u hu source i hsource hi =>
      decides_invariant hs hP hQ hkeeps hparameter hsource hu hi
        (by have := Store.height_le_size (hQheld u hu); omega)
    refine decides_matchStep hs.toFormed hP (hkeeps depth) hsource hi
      (fun u hu => hinvariant u (hQ.part hu hmember))
      (fun p hp => hparameter depth _ _ _ p _ (by omega) hsource hmember hp hi) (fun e he => ?_)
      fun hnot => decides_narrow (fun f hf => ?_) (fun u hu => ?_) fun b hb => ?_
    · have hpart := Store.target_mem_parts (TypeInfo.form_eq_reference_iff.mpr he)
      have hlt := hs.toFormed.height_part hpart
      have hclimb := s.climb_le e
      -- What is referred to may climb as far as any type, but it does so once only.
      rw [TypeInfo.isByRef, he, if_pos rfl] at hdepth
      exact ih hsource (hQ.part hpart hmember) hi (by split <;> omega)
    · exact hinvariant f (hQ.upward (Store.upward_of_mem_allInterfaces hf) hmember) _ _ hsource hi
    · exact hinvariant member hmember _ _ (hP.argument (Store.nullableUnderlying_mem hu) hsource) hi
    · have hclimb := Store.climb_lt hs hacyclic (hQheld member hmember) hb
      rw [hnot, if_neg Bool.false_ne_true] at hdepth
      refine ih hsource (hQ.baseStep hb hmember) hi ?_
      rw [href member b hb, if_neg Bool.false_ne_true]
      omega

include hPheld in
/-- **Between parameters a match is as deep as three chains**, whatever its variance. -/
theorem decides_of_le (hdepth : 3 * s.size + 2 + room ≤ depth) :
    (matchWithin s depth source v member i).Decides := by
  have hheight := Store.height_le_size (hQheld member hmember)
  cases v with
  | invariant => exact decides_invariant hs hP hQ hkeeps hparameter hsource hmember hi (by omega)
  | contravariant =>
    have hclimb := s.climb_le source
    exact decides_contravariant hs hP hQ hPheld hkeeps hparameter hsource hmember hi hacyclic
      (by omega)
  | covariant =>
    have hclimb := s.climb_le member
    refine decides_covariant hs hP hQ hQheld hkeeps hparameter hsource hmember hi hacyclic href ?_
    split <;> omega

end Levels

/-! ### Types that lead to no slot -/

namespace Store

variable {s : Store}

/-- The types that a type leads to at once: its parts, its base and its interfaces. An interface
that declares no base has the root in its place. -/
def leads (s : Store) (t : TypeId) : List TypeId :=
  s.parts t ++ (s.info t).above ++ (baseStep s t).toList

/-- **A type is clear of slots**: no parameter that it leads to, however far, has a slot. -/
structure ClearOf (s : Store) (owns : GenericParameter → Bool) (t : TypeId) : Prop where
  /-- The type is held. -/
  held : s.Holds t
  /-- The parameters that it leads to have no slot. -/
  avoids : ∀ u p, Relation.ReflTransGen (fun t u => u ∈ s.leads t) t u →
    (s.info u).shape = .parameter p → owns p = false

theorem ClearOf.of_leads {owns : GenericParameter → Bool} {t u : TypeId} (h : s.ClearOf owns t)
    (hu : u ∈ s.leads t) (hheld : s.Holds u) : s.ClearOf owns u :=
  ⟨hheld, fun w p hw hp => h.avoids w p (.head hu hw) hp⟩

/-- A type is clear of slots where it is among some types that lead nowhere else, none of which is a
parameter with a slot. -/
theorem ClearOf.of_closed {owns : GenericParameter → Bool} {ts : List TypeId}
    (h : ∀ t ∈ ts, (∀ u ∈ s.leads t, u ∈ ts) ∧ (s.info t).parameter?.all fun p => !owns p)
    {t : TypeId} (ht : t ∈ ts) (hheld : s.Holds t) : s.ClearOf owns t := by
  refine ⟨hheld, fun u p hu hp => ?_⟩
  have hmem : u ∈ ts := by
    clear hp
    induction hu with
    | refl => exact ht
    | tail _ hu ih => exact (h _ ih).1 _ hu
  have howns := (h u hmem).2
  rw [TypeInfo.parameter?_eq_some_iff.mpr hp] at howns
  exact Bool.not_eq_true' _ |>.mp howns

/-- To be clear of slots is handed on. -/
theorem inherited_clearOf (hs : s.WellFormed) (owns : GenericParameter → Bool) :
    s.Inherited (s.ClearOf owns) where
  above hu ht := ht.of_leads (by simp [leads, hu]) (hs.inherited_holds.above hu ht.held)
  root hb ht := ht.of_leads (by simp [leads, hb]) (hs.inherited_holds.root hb ht.held)
  element he ht := by
    have hpart := element_mem_parts (TypeInfo.form_eq_array_iff.mpr he)
    exact ht.of_leads (by simp [leads, hpart]) (hs.holds_part hpart)
  target he ht := by
    have hpart := target_mem_parts (TypeInfo.form_eq_reference_iff.mpr he)
    exact ht.of_leads (by simp [leads, hpart]) (hs.holds_part hpart)
  argument ha ht := by
    have hpart := hs.mem_parts_of_mem_arguments ha
    exact ht.of_leads (by simp [leads, hpart]) (hs.holds_part hpart)

end Store

/-- **What is known while a match goes on**: which parameters have slots, that what is bound is
clear of them, and how many slots are empty at most. -/
structure Inference.Within (s : Store) (owns : GenericParameter → Bool) (count : Nat)
    (i : Inference) : Prop where
  /-- The same parameters have slots. -/
  owns_eq : ∀ p, i.owns p = owns p
  /-- What is bound is clear of slots. -/
  all : i.All (s.ClearOf owns)
  /-- No more slots are empty. -/
  emptyCount_le : i.emptyCount ≤ count

section Terminates

variable {s : Store} {owns : GenericParameter → Bool} {count : Nat} (hs : s.WellFormed)

include hs

/-- An accepted match keeps what is known, if its source is clear of slots. -/
theorem keeps_within (depth : Nat) :
    (matchWithin s depth).Keeps (s.ClearOf owns) (Inference.Within s owns count) := by
  intro source v member i j hsource hi haccepted
  have hextends := matchWithin_extends haccepted
  exact ⟨fun p => (hextends.owns_eq p).trans (hi.owns_eq p),
    matchWithin_inherits (s.inherited_clearOf hs owns) haccepted hsource hi.all,
    hextends.emptyCount_le.trans hi.emptyCount_le⟩

variable (hacyclic : ∀ t, ¬ Relation.TransGen (fun t b => baseStep s t = some b) t t)
  (href : ∀ t b, baseStep s t = some b → (s.info b).isByRef = false)
  {depth : Nat} {source member : TypeId} {v : Variance} {i : Inference}
  (hsource : s.ClearOf owns source)

include hacyclic href hsource

/-- **Against a member that is clear of slots** no parameter is met that has one. -/
theorem decides_of_clear (hmember : s.ClearOf owns member) (hi : i.Within s owns count)
    (hdepth : 3 * s.size + 2 ≤ depth) :
    (matchWithin s depth source v member i).Decides := by
  have hP := s.inherited_clearOf hs owns
  have hparameter : DecidesParameters s (s.ClearOf owns) (s.ClearOf owns)
      (Inference.Within s owns count) 0 := by
    intro depth source v member p i _ _ hmember hp hi
    unfold matchParameter
    rw [hi.owns_eq, hmember.avoids member p .refl hp, if_neg Bool.false_ne_true]
    exact .guard _ _
  exact decides_of_le hs hP hP (fun _ h => h.held) (fun _ h => h.held) (keeps_within hs) hparameter
    hsource hmember hi hacyclic href hdepth

omit hacyclic href in
/-- To check a constraint decides where matches against it do. -/
theorem decides_matchConstraint {c : TypeId} (hi : i.Within s owns count)
    (h : ∀ source v i, s.ClearOf owns source → i.Within s owns count →
      (matchWithin s depth source v c i).Decides) :
    (matchConstraint s (matchWithin s depth) source c i).Decides ∧
      ∀ j, matchConstraint s (matchWithin s depth) source c i = .accepted j →
        j.Within s owns count := by
  have hancestor : ∀ a ∈ s.ancestors source, s.ClearOf owns a := fun a ha =>
    (s.inherited_clearOf hs owns).upward (Store.upward_of_mem_ancestors ha) hsource
  constructor
  · unfold matchConstraint
    split
    · exact h _ _ _ hsource hi
    · exact .any fun a ha => h _ _ _ (hancestor a ha) hi
  · intro j hj
    cases constraintRule_of_accepted hj with
    | interface _ hj => exact keeps_within hs depth _ _ _ _ _ hsource hi hj
    | ancestor _ ha hj => exact keeps_within hs depth _ _ _ _ _ (hancestor _ ha) hi hj

/-- **A match against a parameter decides** where matches against its constraints do, with one slot
less that is empty. What is bound to it already is clear of slots. -/
theorem decides_matchParameter {p : GenericParameter} (hi : i.Within s owns count)
    (hdepth : 3 * s.size + 2 ≤ depth)
    (h : ∀ fewer < count, ∀ c ∈ p.constraints, ∀ source v i, s.ClearOf owns source →
      i.Within s owns fewer → (matchWithin s depth source v c i).Decides) :
    (matchParameter s (matchWithin s depth) source v member p i).Decides := by
  unfold matchParameter
  split
  case isFalse => exact .guard _ _
  case isTrue howns =>
    split
    case h_1 bound hbound =>
      split
      · exact .accepted i
      · have hclear := hi.all p bound howns hbound
        exact (decides_of_clear hs hacyclic href hsource hclear hi hdepth).orElse
          (decides_of_clear hs hacyclic href hsource hclear hi hdepth)
    case h_2 hempty =>
      split
      case isFalse => exact .refused
      case isTrue =>
        have hput : (i.put p source).Within s owns (i.put p source).emptyCount :=
          ⟨fun q => (i.owns_put p q source).trans (hi.owns_eq q), hi.all.put hsource howns, le_rfl⟩
        have hfewer := (Inference.emptyCount_put_lt source howns hempty).trans_le hi.emptyCount_le
        refine .map (.map (.all hput fun c hc j hj => ?_) _) _
        exact decides_matchConstraint hs hsource hj (h _ hfewer c hc)

/-- **The depth that suffices** for a number of empty slots. -/
theorem decides_of_emptyCount_le (hmember : s.Holds member) (hi : i.Within s owns count)
    (hdepth : (count + 2) * (3 * s.size + 2) ≤ depth) :
    (matchWithin s depth source v member i).Decides := by
  induction count using Nat.strong_induction_on generalizing depth source member v i with
  | _ count ih =>
    have hparameter : DecidesParameters s (s.ClearOf owns) s.Holds (Inference.Within s owns count)
        ((count + 1) * (3 * s.size + 2)) := by
      intro depth source v member p i hroom hsource hmember hp hi
      have hone : 3 * s.size + 2 ≤ (count + 1) * (3 * s.size + 2) :=
        Nat.le_mul_of_pos_left _ count.succ_pos
      refine decides_matchParameter hs hacyclic href hsource hi (hone.trans hroom)
        fun fewer hfewer c hc source v i hsource hi => ih fewer hfewer hsource ?_ hi ?_
      · refine hs.holds_constraint (t := member) ?_
        rw [TypeInfo.constraints_of_parameter hp]
        exact hc
      · exact (Nat.mul_le_mul_right _ (by omega)).trans hroom
    refine decides_of_le hs (s.inherited_clearOf hs owns) hs.inherited_holds (fun _ h => h.held)
      (fun _ h => h) (keeps_within hs) hparameter hsource hmember hi hacyclic href ?_
    rw [Nat.add_comm, ← Nat.succ_mul]
    exact hdepth

end Terminates

/-- **Matches come to an end.** Where the steps to bases run in no cycle and lead to no reference,
and neither the source nor anything that is bound leads to a parameter with a slot, there is an
answer, and it is the same at every depth from some depth on. -/
theorem search_terminates {allowed : Store → Operation → Prop} {s : Store}
    (hreach : s.Reachable allowed)
    (hacyclic : ∀ t, ¬ Relation.TransGen (fun t b => baseStep s t = some b) t t)
    (href : ∀ t b, baseStep s t = some b → (s.info b).isByRef = false) {source member : TypeId}
    {i : Inference} (hsource : s.ClearOf i.owns source) (hmember : s.Holds member)
    (hbound : i.All (s.ClearOf i.owns)) (v : Variance) :
    ∃ answer, ∀ depth, (i.emptyCount + 2) * (3 * s.size + 2) ≤ depth →
      s.search depth source v member i = some answer := by
  have hdecides :
      (matchWithin s ((i.emptyCount + 2) * (3 * s.size + 2)) source v member i).Decides :=
    decides_of_emptyCount_le hreach.wellFormed hacyclic href hsource hmember
      ⟨fun _ => rfl, hbound, le_rfl⟩ le_rfl
  obtain ⟨answer, hanswer⟩ := hdecides.exists_report i
  refine ⟨answer, fun depth hdepth => ?_⟩
  rw [search_eq_report, matchWithin_of_le hdepth hdecides, hanswer]

/-- A run that defines a generic interface `Foo`, two interfaces that refer to each other, and a
method of `A` and `B`. The first has to be a `Foo` of the second and to have one of those
interfaces, and the second has to be a `Foo` of both. A class is a `Foo` of itself. -/
def mutualRun : List Operation :=
  [.define "Foo" .interfaceKind ["X"], .define "J" .interfaceKind [], .define "K" .interfaceKind [],
    .addInterface ⟨29⟩ ⟨30⟩, .addInterface ⟨30⟩ ⟨29⟩, .newMethod, .methodParameters ⟨0⟩ ["A", "B"],
    .construct ⟨27⟩ [⟨31⟩], .construct ⟨27⟩ [⟨32⟩], .constrain ⟨31⟩ Flags.none [⟨34⟩, ⟨29⟩],
    .constrain ⟨32⟩ Flags.none [⟨33⟩, ⟨34⟩], .define "C" .classKind [], .construct ⟨27⟩ [⟨35⟩],
    .addInterface ⟨35⟩ ⟨36⟩, .addInterface ⟨35⟩ ⟨30⟩]

/-- The class is matched against `A`, and the search comes to an end. It succeeds. -/
theorem search_terminates_mutual :
    ∃ s i answer, s = Store.initial.afterAll mutualRun ∧
      i = { methodSlots := .ofArity (.method ⟨0⟩) 2 } ∧ answer.1 = true ∧
      ∀ depth, (i.emptyCount + 2) * (3 * s.size + 2) ≤ depth →
        s.search depth ⟨35⟩ .contravariant ⟨31⟩ i = some answer := by
  obtain ⟨s, i, hs, hi, hreach, hbases, hheld, hclosed, hanswer⟩ : ∃ (s : Store) (i : Inference),
      s = Store.initial.afterAll mutualRun ∧ i = { methodSlots := .ofArity (.method ⟨0⟩) 2 } ∧
      s.Reachable (fun s op => op.Scoped s) ∧
      (∀ k < s.size, (baseStep s ⟨k⟩).all fun b => b.index < k && !(s.info b).isByRef) ∧
      (35 < s.size ∧ 31 < s.size) ∧
      (∀ t ∈ ([⟨0⟩, ⟨27⟩, ⟨28⟩, ⟨29⟩, ⟨30⟩, ⟨35⟩, ⟨36⟩] : List TypeId),
        (∀ u ∈ s.leads t, u ∈ ([⟨0⟩, ⟨27⟩, ⟨28⟩, ⟨29⟩, ⟨30⟩, ⟨35⟩, ⟨36⟩] : List TypeId)) ∧
          (s.info t).parameter?.all fun p => !i.owns p) ∧
      (s.search ((i.emptyCount + 2) * (3 * s.size + 2)) ⟨35⟩ .contravariant ⟨31⟩ i).map Prod.fst =
        some true :=
    ⟨_, _, rfl, rfl, .of_scopedRun (by decide +kernel), by decide +kernel⟩
  have hstep : ∀ {t b}, baseStep s t = some b → b.index < t.index ∧ (s.info b).isByRef = false := by
    intro t b hb
    have hbase := hbases t.index (Store.holds_of_baseStep hb)
    rw [hb, Option.all_some, Bool.and_eq_true, decide_eq_true_eq, Bool.not_eq_true'] at hbase
    exact hbase
  have hunbound : ∀ P, i.All P := fun P => by
    rw [hi]
    exact .of_unbound Slots.get?_empty (Slots.get?_ofArity _ _)
  obtain ⟨answer, hsearch⟩ := search_terminates hreach
    (Store.acyclic_of_index_lt fun hb => (hstep hb).1) (fun t b hb => (hstep hb).2)
    (.of_closed hclosed (by decide) hheld.1) hheld.2 (hunbound _) .contravariant
  refine ⟨s, i, answer, hs, hi, ?_, hsearch⟩
  rw [hsearch _ le_rfl] at hanswer
  exact Option.some.inj hanswer

end CallSite
