import Mathlib.Data.List.Forall2
import Mathlib.Data.List.Perm.Basic

/-!
# Lists

Facts about lists, and about values that may be missing, that the rest of the theory needs and that
say nothing about types or calls.
-/

namespace CallSite

/-! ### Lists that are related item by item -/

theorem exists_mem_of_forall₂ {α β : Type} {R : α → β → Prop} {as : List α} {bs : List β}
    (h : List.Forall₂ R as bs) {a : α} (ha : a ∈ as) : ∃ b ∈ bs, R a b := by
  induction h with
  | nil => cases ha
  | cons hab _ ih =>
    rcases List.mem_cons.mp ha with rfl | ha
    · exact ⟨_, List.mem_cons_self, hab⟩
    · obtain ⟨b, hb, hr⟩ := ih ha
      exact ⟨b, List.mem_cons_of_mem _ hb, hr⟩

theorem exists_mem_of_forall₂_right {α β : Type} {R : α → β → Prop} {as : List α} {bs : List β}
    (h : List.Forall₂ R as bs) {b : β} (hb : b ∈ bs) : ∃ a ∈ as, R a b :=
  exists_mem_of_forall₂ (R := flip R) (List.Forall₂.flip h) hb

theorem exists_forall₂ {α β : Type} {R : α → β → Prop} {as : List α} (h : ∀ a ∈ as, ∃ b, R a b) :
    ∃ bs, List.Forall₂ R as bs := by
  induction as with
  | nil => exact ⟨[], .nil⟩
  | cons a as ih =>
    obtain ⟨b, hb⟩ := h a List.mem_cons_self
    obtain ⟨bs, hbs⟩ := ih fun a' ha' => h a' (List.mem_cons_of_mem _ ha')
    exact ⟨b :: bs, .cons hb hbs⟩

theorem forall₂_imp_of_mem {α β : Type} {R R' : α → β → Prop} {as : List α} {bs : List β}
    (h : List.Forall₂ R as bs) (himp : ∀ a ∈ as, ∀ b ∈ bs, R a b → R' a b) :
    List.Forall₂ R' as bs := by
  rw [List.forall₂_iff_zip] at h ⊢
  refine ⟨h.1, fun hab => ?_⟩
  obtain ⟨ha, hb⟩ := List.of_mem_zip hab
  exact himp _ ha _ hb (h.2 hab)

/-- Related lists that are related to others. -/
theorem forall₂_comp {α β γ : Type} {R : α → β → Prop} {R' : β → γ → Prop} {S : α → γ → Prop}
    {xs : List α} {ys : List β} {zs : List γ} (h : List.Forall₂ R xs ys)
    (h' : List.Forall₂ R' ys zs) (hcomp : ∀ x ∈ xs, ∀ y z, R x y → R' y z → S x z) :
    List.Forall₂ S xs zs := by
  induction h generalizing zs with
  | nil =>
    cases h'
    exact .nil
  | cons hxy _ ih =>
    cases h' with
    | cons hyz h' =>
      exact .cons (hcomp _ List.mem_cons_self _ _ hxy hyz)
        (ih h' fun x hx => hcomp x (List.mem_cons_of_mem _ hx))

/-- Two lists that are related to one list, item by item, are related to each other. -/
theorem forall₂_between {α β γ : Type} {R : α → β → Prop} {R' : α → γ → Prop} {S : β → γ → Prop}
    {as : List α} {bs : List β} {cs : List γ} (h : List.Forall₂ R as bs)
    (h' : List.Forall₂ R' as cs) (hbetween : ∀ a ∈ as, ∀ b c, R a b → R' a c → S b c) :
    List.Forall₂ S bs cs := by
  induction h generalizing cs with
  | nil =>
    cases h'
    exact .nil
  | cons hab _ ih =>
    cases h' with
    | cons hac h' =>
      exact .cons (hbetween _ List.mem_cons_self _ _ hab hac)
        (ih h' fun a ha => hbetween a (List.mem_cons_of_mem _ ha))

theorem eq_of_forall_zip {α : Type} {as bs : List α} (hlen : as.length = bs.length)
    (h : ∀ pair ∈ as.zip bs, pair.1 = pair.2) : as = bs := by
  rw [← List.forall₂_eq_eq_eq]
  exact List.forall₂_iff_zip.mpr ⟨hlen, fun hab => h _ hab⟩

/-- Related lists have related items at each place. -/
theorem rel_getElem?_of_forall₂ {α β : Type} {R : α → β → Prop} {as : List α} {bs : List β}
    (h : List.Forall₂ R as bs) (k : Nat) : Option.Rel R as[k]? bs[k]? := by
  induction h generalizing k with
  | nil => exact .none
  | cons hab _ ih =>
    cases k with
    | zero => exact .some hab
    | succ k => exact ih k

/-- Items that are related have related places. -/
theorem forall₂_zipIdx {α β : Type} {R : α → β → Prop} {as : List α} {bs : List β}
    (h : List.Forall₂ R as bs) (n : Nat) :
    List.Forall₂ (fun a b => R a.1 b.1 ∧ b.2 = a.2) (as.zipIdx n) (bs.zipIdx n) := by
  induction h generalizing n with
  | nil => exact .nil
  | cons hab _ ih => exact .cons ⟨hab, rfl⟩ (ih (n + 1))

/-! ### Values that may be missing -/

theorem exists_of_rel_some {α β : Type} {R : α → β → Prop} {o : Option α} {o' : Option β} {b : β}
    (h : Option.Rel R o o') (hb : o' = some b) : ∃ a, o = some a ∧ R a b := by
  subst hb
  cases h with
  | some h => exact ⟨_, rfl, h⟩

theorem rel_imp_of_mem {α β : Type} {R R' : α → β → Prop} {o : Option α} {o' : Option β}
    (h : Option.Rel R o o') (himp : ∀ a b, o = some a → o' = some b → R a b → R' a b) :
    Option.Rel R' o o' := by
  cases h with
  | none => exact .none
  | some h => exact .some (himp _ _ rfl rfl h)

/-- A relation between two values that may be missing, read from the other side. -/
theorem rel_flip {α β : Type} {R : α → β → Prop} {o : Option α} {o' : Option β}
    (h : Option.Rel R o o') : Option.Rel (fun b a => R a b) o' o := by
  cases h with
  | none => exact .none
  | some h => exact .some h

theorem rel_between {α β γ : Type} {R : α → β → Prop} {R' : α → γ → Prop} {S : β → γ → Prop}
    {o : Option α} {ob : Option β} {oc : Option γ} (h : Option.Rel R o ob)
    (h' : Option.Rel R' o oc) (hbetween : ∀ a, o = some a → ∀ b c, R a b → R' a c → S b c) :
    Option.Rel S ob oc := by
  cases h with
  | none =>
    cases h'
    exact .none
  | some hab =>
    cases h' with
    | some hac => exact .some (hbetween _ rfl _ _ hab hac)

/-! ### Searches and walks -/

/-- What is found in a list of pairs is in it. -/
theorem mem_of_lookup_eq_some {α β : Type} [BEq α] [LawfulBEq α] {entries : List (α × β)} {key : α}
    {b : β} (h : entries.lookup key = some b) : (key, b) ∈ entries := by
  obtain ⟨before, after, rfl, -⟩ := List.lookup_eq_some_iff.mp h
  exact List.mem_append_right _ List.mem_cons_self

/-- What only one item passes is found in any order. -/
theorem find?_eq_of_perm {α : Type} {test : α → Bool} {l l' : List α} (hperm : l.Perm l')
    (hone : l.Pairwise fun a b => ¬ (test a ∧ test b)) : l.find? test = l'.find? test := by
  have hsymm : ∀ {a b : α}, ¬ (test a ∧ test b) → ¬ (test b ∧ test a) :=
    fun hnot hboth => hnot hboth.symm
  induction hperm with
  | nil => rfl
  | cons a _ ih => rw [List.find?_cons, List.find?_cons, ih (List.pairwise_cons.mp hone).2]
  | swap a b l =>
    have hnot := (List.pairwise_cons.mp hone).1 a List.mem_cons_self
    simp only [List.find?_cons]
    cases hb : test b with
    | false => rfl
    | true =>
      rw [Bool.eq_false_iff.mpr fun ha => hnot ⟨hb, ha⟩]
  | trans h _ ih₁ ih₂ => rw [ih₁ hone, ih₂ ((h.pairwise_iff hsymm).mp hone)]

/-- To set what is there already changes nothing. -/
theorem set_eq_self {α : Type} {l : List α} {k : Nat} {a : α} (h : l[k]? = some a) :
    l.set k a = l := by
  obtain ⟨hk, rfl⟩ := List.getElem?_eq_some_iff.mp h
  exact List.set_getElem_self hk

/-- Where an entry that passes a test has only such entries in front of it, those that pass stand
together at the front. -/
theorem length_takeWhile_of_pairwise {α : Type} {test : α → Bool} {l : List α}
    (h : l.Pairwise fun a b => test b → test a) : (l.takeWhile test).length = l.countP test := by
  induction l with
  | nil => rfl
  | cons a l ih =>
    obtain ⟨hfirst, hrest⟩ := List.pairwise_cons.mp h
    cases ha : test a with
    | true => rw [List.takeWhile_cons_of_pos ha, List.countP_cons_of_pos ha, List.length_cons,
        ih hrest]
    | false =>
      have hnone : ∀ b ∈ a :: l, test b = false := by
        intro b hb
        obtain rfl | hb := List.mem_cons.mp hb
        · exact ha
        · exact Bool.eq_false_iff.mpr fun htrue => by simp [hfirst b hb htrue] at ha
      rw [List.takeWhile_cons_of_neg (by rw [ha]; decide), List.countP_eq_zero.mpr fun b hb => by
        rw [hnone b hb]; decide]
      rfl

/-- What a walk over a list finds was found before, or by one of its steps. -/
theorem mem_foldl_cases {α β : Type} {step : List α → β → List α} {P : β → α → Prop}
    (hstep : ∀ found b x, x ∈ step found b → x ∈ found ∨ P b x) {items : List β} {found : List α}
    {x : α} (h : x ∈ items.foldl step found) : x ∈ found ∨ ∃ b ∈ items, P b x := by
  induction items generalizing found with
  | nil => exact .inl h
  | cons b items ih =>
    rcases ih h with h | ⟨b', hb', hx⟩
    · exact (hstep found b x h).imp_right fun hx => ⟨b, List.mem_cons_self, hx⟩
    · exact .inr ⟨b', List.mem_cons_of_mem _ hb', hx⟩

/-- Two folds are the same if their steps are, from every state that a step may lead to. -/
theorem foldlM_congr {α β : Type} {P : β → Prop} {f g : β → α → Option β} {items : List α} {x : β}
    (hsame : ∀ a ∈ items, ∀ x, P x → g x a = f x a)
    (hkeep : ∀ a ∈ items, ∀ x y, P x → f x a = some y → P y) (hx : P x) :
    items.foldlM g x = items.foldlM f x := by
  induction items generalizing x with
  | nil => rfl
  | cons a items ih =>
    rw [List.foldlM_cons, List.foldlM_cons, hsame a List.mem_cons_self x hx]
    refine Option.bind_congr fun y hy => ?_
    exact ih (fun b hb => hsame b (List.mem_cons_of_mem _ hb))
      (fun b hb => hkeep b (List.mem_cons_of_mem _ hb))
      (hkeep a List.mem_cons_self x y hx hy)

end CallSite
