import CallSite.Proofs.Type.Check
import CallSite.Proofs.Type.Rank
import CallSite.Proofs.Type.Recorded
import Mathlib.Data.List.Nodup
import Mathlib.Logic.Relation

/-!
# Copies of method parameters

The parameters of a method are made again in two passes: first a copy of each is appended, and then
its constraints are written, which may mention any of the copies and may add types that are made
from them. So the store is changed while it is read. What matters is that a pass writes to the
copies alone (`Store.Keeps`): the rows that the constraints are read from stay, and an image that
was made for one copy is still one when the next copy is written.

The answer is entered in a table under the method and the type part of the substitution. That an
entry is never replaced and that no two entries have a method in common (`Store.AnswersApart`) is an
invariant of all operations.

* `Store.Keeps` – a store grows, and only some of the rows that it had may have changed.
* `Store.IsCopy` – a parameter is a copy of another one, under a substitution of its constraints.
* `copies_of_rebind` – what is answered to a request that is new.
* `Store.AnswersApart` – the answers in the table are told apart by their methods.
* `rebind_copies` – where hierarchies end a request is answered by a faithful copy, once and for
  all.
* `not_succeeds_of_expanding` – a request is not answered where the base of a definition expands
  that a constraint has to be constructed from.
-/

namespace CallSite

/-! ### Stores that keep rows -/

/-- **A store grows, and rows may have changed where `written` says so.** Forms stay everywhere. -/
structure Store.Keeps (written : TypeId → Prop) (s s' : Store) : Prop where
  /-- No type is lost. -/
  holds : ∀ {t}, s.Holds t → s'.Holds t
  /-- Forms stay. -/
  form_eq : ∀ {t}, s.Holds t → s'.form t = s.form t
  /-- Rows that are not written stay. -/
  info_eq : ∀ {t}, s.Holds t → ¬ written t → s'.info t = s.info t

namespace Store.Keeps

variable {written : TypeId → Prop} {s s' s'' : Store}

theorem of_extends (h : s.Extends s') : s.Keeps written s' :=
  ⟨h.holds, h.form_eq, fun ht _ => h.info_eq ht⟩

theorem trans (h : s.Keeps written s') (h' : s'.Keeps written s'') : s.Keeps written s'' where
  holds ht := h'.holds (h.holds ht)
  form_eq ht := (h'.form_eq (h.holds ht)).trans (h.form_eq ht)
  info_eq ht hn := (h'.info_eq (h.holds ht) hn).trans (h.info_eq ht hn)

theorem imp {written' : TypeId → Prop} (h : s.Keeps written s')
    (himp : ∀ t, written t → written' t) : s.Keeps written' s' :=
  ⟨h.holds, h.form_eq, fun ht hn => h.info_eq ht (mt (himp _) hn)⟩

/-- Only the row of the parameter itself is written. -/
theorem setConstraints (s : Store) (t : TypeId) (flags : Flags) (constraints : List TypeId) :
    s.Keeps (· = t) (s.setConstraints t flags constraints) where
  holds := (sameForms_setConstraints s t flags constraints).holds_iff.mpr
  form_eq _ := (sameForms_setConstraints s t flags constraints).form_eq _
  info_eq _ hn := info_edit_of_ne s _ (Ne.symm hn)

/-- **Images stay** where forms do. -/
theorem image (h : s.Keeps written s') (hs : s.Formed) {σ : Substitution} {m t : TypeId}
    (hm : s.Holds m) (ht : s.Holds t) (himage : Image s σ.Sends m t) : Image s' σ.Sends m t :=
  himage.of_forms (fun _ hu => hs.holds_part hu) h.form_eq hm ht

end Store.Keeps

/-! ### Writing constraints -/

/-- **Constraints were copied** from a parameter to another one, whose row is otherwise what it
was. -/
def Store.Copied (s s' : Store) (σ : Substitution) (old new : TypeId) : Prop :=
  ∃ p q constraints, (s.info old).shape = .parameter p ∧ (s.info new).shape = .parameter q ∧
    s'.info new = { s.info new with
      shape := .parameter { q with flags := p.flags, constraints := constraints } } ∧
    List.Forall₂ (fun c c' => s'.Holds c ∧ s'.Holds c' ∧ Image s' σ.Sends c c') p.constraints
      constraints

section Copy

variable {s s' : Store} {σ : Substitution}

/-- **One parameter is copied**: the images are made, and then the row of the copy is written. -/
theorem copied_of_copyConstraints (hs : s.WellFormed) (hσ : σ.HeldBy s) {old new : TypeId}
    {p q : GenericParameter} (hold : (s.info old).shape = .parameter p) (hnew : s.Holds new)
    (hshape : (s.info new).shape = .parameter q) (h : copyConstraints σ old new s = .ok () s') :
    s'.WellFormed ∧ s.Keeps (· = new) s' ∧ s.Copied s' σ old new := by
  have hheld : ∀ c ∈ p.constraints, s.Holds c := fun c hc => hs.holds_constraint (t := old) (by
    rw [TypeInfo.constraints_of_parameter hold]
    exact hc)
  have himages : Builds (p.constraints.mapM (substitute σ)) s fun us s' =>
      List.Forall₂ (fun c u => s'.Holds c ∧ s'.Holds u ∧ Image s' σ.Sends c u) p.constraints us :=
    .mapM (P := fun c u s' => s'.Holds c ∧ s'.Holds u ∧ Image s' σ.Sends c u) hs
      (fun c u s₁ s₂ hgrown hs₁ ⟨hc, hu, himage⟩ => ⟨hgrown.holds hc, hgrown.holds hu,
        himage.of_extends hs₁.toFormed hgrown.toExtends hc hu⟩) _
      fun c hc s₁ hgrown => (builds_substitute hgrown.wellFormed (hgrown.holds (hheld c hc))
        (hσ.of_extends hgrown.toExtends)).imp fun u s₂ hgrown' hu =>
          ⟨hgrown'.holds (hgrown.holds (hheld c hc)), hu⟩
  rw [copyConstraints, get_bind_apply, TypeInfo.parameter?_eq_some_iff.mpr hold] at h
  obtain ⟨us, s₁, hrun, hwrite⟩ := exists_of_bind_eq_ok h
  obtain ⟨hgrown, -, hus⟩ := himages.of_ok hrun
  obtain rfl : s₁.setConstraints new p.flags us = s' := (EStateM.Result.ok.inj hwrite).2
  have hwritten := Store.Keeps.setConstraints s₁ new p.flags us
  refine ⟨hgrown.wellFormed.setConstraints fun u hu => ?_,
    (Store.Keeps.of_extends hgrown.toExtends).trans hwritten, p, q, us, hold, hshape, ?_, ?_⟩
  · obtain ⟨c, -, hc⟩ := exists_mem_of_forall₂_right hus hu
    exact hc.2.1
  · rw [Store.setConstraints, Store.info_edit_self _ (hgrown.holds hnew), hgrown.info_eq hnew,
      hshape]
  · exact hus.imp fun c u ⟨hc, hu, himage⟩ => ⟨hwritten.holds hc, hwritten.holds hu,
      hwritten.image hgrown.wellFormed.toFormed hc hu himage⟩

/-- **All parameters are copied** one after another. Only the copies are written, so what was copied
stays copied. -/
theorem copied_of_forM {entries : List (TypeId × TypeId)} (hs : s.WellFormed) (hσ : σ.HeldBy s)
    (hold : ∀ e ∈ entries, s.Holds e.1 ∧ (s.info e.1).isParameter)
    (hnew : ∀ e ∈ entries, s.Holds e.2 ∧ (s.info e.2).isParameter)
    (hapart : ∀ e ∈ entries, ∀ e' ∈ entries, e.1 ≠ e'.2) (hnodup : (entries.map Prod.snd).Nodup)
    (h : entries.forM (fun e => copyConstraints σ e.1 e.2) s = .ok () s') :
    s'.WellFormed ∧ s.Keeps (· ∈ entries.map Prod.snd) s' ∧
      ∀ e ∈ entries, s.Copied s' σ e.1 e.2 := by
  induction entries generalizing s with
  | nil =>
    obtain rfl : s = s' := (EStateM.Result.ok.inj h).2
    exact ⟨hs, .of_extends (.refl s), fun _ he => absurd he List.not_mem_nil⟩
  | cons e entries ih =>
    obtain ⟨_, s₁, hfirst, hrest⟩ := exists_of_bind_eq_ok h
    rw [List.map_cons, List.nodup_cons] at hnodup
    obtain ⟨p, hp⟩ := TypeInfo.isParameter_iff.mp (hold e List.mem_cons_self).2
    obtain ⟨q, hq⟩ := TypeInfo.isParameter_iff.mp (hnew e List.mem_cons_self).2
    obtain ⟨hs₁, hkeeps₁, hcopied⟩ :=
      copied_of_copyConstraints hs hσ hp (hnew e List.mem_cons_self).1 hq hfirst
    have hparameter : ∀ {t}, s.Holds t ∧ (s.info t).isParameter →
        s₁.Holds t ∧ (s₁.info t).isParameter := fun ⟨ht, hparam⟩ =>
      ⟨hkeeps₁.holds ht, by rw [TypeInfo.isParameter_congr (hkeeps₁.form_eq ht), hparam]⟩
    obtain ⟨hs', hkeeps₂, hcopies⟩ := ih hs₁ (fun p u hu => hkeeps₁.holds (hσ p u hu))
      (fun e' he' => hparameter (hold e' (List.mem_cons_of_mem _ he')))
      (fun e' he' => hparameter (hnew e' (List.mem_cons_of_mem _ he')))
      (fun e' he' e'' he'' => hapart e' (List.mem_cons_of_mem _ he') e''
        (List.mem_cons_of_mem _ he'')) hnodup.2 hrest
    refine ⟨hs', (hkeeps₁.imp fun t ht => ?_).trans (hkeeps₂.imp fun t => List.mem_cons_of_mem _),
      fun e' he' => ?_⟩
    · rw [ht]
      exact List.mem_cons_self
    rcases List.mem_cons.mp he' with rfl | he'
    · -- The copy that was written first is not written again.
      obtain ⟨p, q, constraints, hp, hq, hrow, himages⟩ := hcopied
      refine ⟨p, q, constraints, hp, hq, ?_, himages.imp fun c u ⟨hc, hu, himage⟩ =>
        ⟨hkeeps₂.holds hc, hkeeps₂.holds hu, hkeeps₂.image hs₁.toFormed hc hu himage⟩⟩
      rw [hkeeps₂.info_eq (hkeeps₁.holds (hnew e' List.mem_cons_self).1) hnodup.1, hrow]
    · -- Neither row that a later copy is made of was written first.
      have hmem := List.mem_cons_of_mem e he'
      obtain ⟨p, q, constraints, hp, hq, hrow, himages⟩ := hcopies e' he'
      rw [hkeeps₁.info_eq (hold e' hmem).1 (hapart e' hmem e List.mem_cons_self)] at hp
      rw [hkeeps₁.info_eq (hnew e' hmem).1 fun heq =>
        hnodup.1 (heq ▸ List.mem_map_of_mem he')] at hq hrow
      exact ⟨p, q, constraints, hp, hq, hrow, himages⟩

end Copy

/-! ### A request that is new -/

/-- **A parameter is a copy of another one**: it has the same name, the same place and the same
flags, it belongs to a new method, and its constraints are those of the other with a substitution
applied. -/
def Store.IsCopy (s s' : Store) (σ : Substitution) (fresh : MethodToken) (t c : TypeId) : Prop :=
  ∃ p constraints, (s.info t).shape = .parameter p ∧
    s'.info c =
      { name := (s.info t).name
        shape := .parameter
          { owner := .method fresh
            position := p.position
            flags := p.flags
            constraints := constraints } } ∧
    List.Forall₂ (Image s' σ.Sends) p.constraints constraints

section New

variable {s s' : Store} (hs : s.WellFormed) {ps : List TypeId}

/-- The parameters that answer a request differ from each other. -/
theorem Store.nodup_copies (s : Store) (ps : List TypeId) : (s.copies ps).1.Nodup := by
  refine List.nodup_iff_getElem?_ne_getElem?.mpr fun i j hij hj heq => ?_
  have hi := form_copies s ps (heq.trans (List.getElem?_eq_getElem hj))
  rw [form_copies s ps (List.getElem?_eq_getElem hj)] at hi
  cases hi
  exact Nat.lt_irrefl _ hij

/-- The row of a copy before its constraints are written. -/
theorem Store.info_copies (s : Store) {ps : List TypeId} {k : Nat} {t c : TypeId}
    (ht : ps[k]? = some t) (hc : (s.copies ps).1[k]? = some c) :
    (s.copies ps).2.info c = parameterInfo (s.info t).name (.method s.newMethod.1) k := by
  obtain ⟨hk, rfl⟩ := List.getElem?_eq_some_iff.mp ht
  have hlt : k < (ps.map fun p => (s.info p).name).length := by rwa [List.length_map]
  rw [copies, defineMethodParameters, getElem?_addParameters, if_pos hlt] at hc
  cases hc
  have hinfo := info_addParameters (.method s.newMethod.1) 0 _ s.newMethod.2 hlt
  rw [List.getElem_map, Nat.zero_add] at hinfo
  exact hinfo

include hs in
/-- **The loop over all parameters makes copies of them.** -/
theorem isCopy_of_copyAllConstraints {m : MethodToken} {σ : Substitution} (hσ : σ.HeldBy s)
    (hps : ∀ (k : Nat) t, ps[k]? = some t → s.form t = .parameter (.method m) k)
    (h : copyAllConstraints m ps (s.copies ps).1 σ (s.copies ps).2 = .ok () s') {k : Nat}
    {t c : TypeId} (ht : ps[k]? = some t) (hc : (s.copies ps).1[k]? = some c) :
    s.IsCopy s' (σ.typePart.withMethod m (s.copies ps).1) s.newMethod.1 t c := by
  have hgrown := Store.grown_copies hs ps
  have hold : ∀ {t}, t ∈ ps → s.Holds t ∧ (s.info t).isParameter := fun {t} ht => by
    obtain ⟨k, hk⟩ := List.mem_iff_getElem?.mp ht
    have hf := hps k t hk
    obtain ⟨p, hp, -⟩ := TypeInfo.form_eq_parameter_iff.mp hf
    exact ⟨Store.holds_of_form_ne (by rw [hf]; exact Form.noConfusion),
      TypeInfo.isParameter_iff.mpr ⟨p, hp⟩⟩
  have hnew : ∀ {c}, c ∈ (s.copies ps).1 → ((s.copies ps).2.info c).isParameter := fun {c} hc => by
    obtain ⟨k, hk⟩ := List.mem_iff_getElem?.mp hc
    obtain ⟨p, hp, -⟩ := TypeInfo.form_eq_parameter_iff.mp (Store.form_copies s ps hk)
    exact TypeInfo.isParameter_iff.mpr ⟨p, hp⟩
  have hσ' : (σ.typePart.withMethod m (s.copies ps).1).HeldBy (s.copies ps).2 :=
    (hσ.of_extends hgrown.toExtends).withMethod m fun t ht => (Store.mem_copies ps ht).2
  have hkept : ∀ e ∈ ps.zip (s.copies ps).1,
      (s.copies ps).2.Holds e.1 ∧ ((s.copies ps).2.info e.1).isParameter := fun e he => by
    obtain ⟨ht, hparam⟩ := hold (List.of_mem_zip he).1
    rw [hgrown.info_eq ht]
    exact ⟨hgrown.holds ht, hparam⟩
  have hapart : ∀ e ∈ ps.zip (s.copies ps).1, ∀ e' ∈ ps.zip (s.copies ps).1, e.1 ≠ e'.2 :=
    fun e he e' he' heq => (Store.mem_copies ps (List.of_mem_zip he').2).1
      (heq ▸ (hold (List.of_mem_zip he).1).1)
  have hnodup : ((ps.zip (s.copies ps).1).map Prod.snd).Nodup := by
    rw [List.map_snd_zip (Nat.le_of_eq (s.length_copies ps))]
    exact s.nodup_copies ps
  obtain ⟨-, -, hcopied⟩ := copied_of_forM hgrown.wellFormed hσ' hkept
    (fun e he => ⟨(Store.mem_copies ps (List.of_mem_zip he).2).2, hnew (List.of_mem_zip he).2⟩)
    hapart hnodup h
  have hmem : (t, c) ∈ ps.zip (s.copies ps).1 :=
    List.mem_iff_getElem?.mpr ⟨k, List.getElem?_zip_eq_some.mpr ⟨ht, hc⟩⟩
  obtain ⟨p, q, constraints, hp, hq, hrow, himages⟩ := hcopied (t, c) hmem
  rw [hgrown.info_eq (hold (List.mem_of_getElem? ht)).1] at hp
  rw [s.info_copies ht hc] at hq hrow
  cases hq
  obtain ⟨p', hp', -, rfl⟩ := TypeInfo.form_eq_parameter_iff.mp (hps k t ht)
  rw [hp] at hp'
  cases hp'
  exact ⟨p, constraints, hp, hrow, himages.imp fun _ _ himage => himage.2.2⟩

include hs in
/-- **What answers a new request**: a method that was not met before, and a copy of each
parameter. -/
theorem copies_of_rebind {m fresh : MethodToken} {σ : Substitution} {cs : List TypeId}
    (hps : ∀ (k : Nat) t, ps[k]? = some t → s.form t = .parameter (.method m) k) (hσ : σ.HeldBy s)
    (hnone : s.rebound.lookup ⟨m, σ.typeOwner, σ.typeArguments⟩ = none)
    (h : rebindMethodParameters m ps σ s = .ok (fresh, cs) s') :
    fresh = s.newMethod.1 ∧ cs = (s.copies ps).1 ∧
      ∀ (k : Nat) t c, ps[k]? = some t → cs[k]? = some c →
        s.IsCopy s' (σ.typePart.withMethod m cs) fresh t c := by
  rw [rebind_of_lookup_eq_none hnone] at h
  obtain ⟨_, s₁, hloop, h⟩ := exists_of_bind_eq_ok h
  obtain ⟨hanswer, hafter⟩ := EStateM.Result.ok.inj h
  cases hanswer
  have hsame : s₁.SameForms s' := Store.sameForms_of_types_eq (by rw [← hafter])
  refine ⟨rfl, rfl, fun k t c ht hc => ?_⟩
  obtain ⟨p, constraints, hp, hrow, himages⟩ := isCopy_of_copyAllConstraints hs hσ hps hloop ht hc
  refine ⟨p, constraints, hp, ?_, himages.imp fun _ _ himage => himage.of_sameForms hsame⟩
  rw [← hrow, ← hafter]
  rfl

end New

/-! ### The table of answers -/

/-- **Answers are told apart** by their methods, each of which was met for one answer only. -/
structure Store.AnswersApart (s : Store) : Prop where
  /-- The method of an answer was met. -/
  method_lt : ∀ {entry}, entry ∈ s.rebound → entry.2.1.number < s.nextMethod
  /-- No two answers have their method in common. -/
  nodup : (s.rebound.map fun entry => entry.2.1).Nodup

namespace Store.AnswersApart

variable {s s' : Store}

theorem of_rebound_eq (h : s.AnswersApart) (hrebound : s'.rebound = s.rebound)
    (hle : s.nextMethod ≤ s'.nextMethod) : s'.AnswersApart where
  method_lt hentry := Nat.lt_of_lt_of_le (h.method_lt (hrebound ▸ hentry)) hle
  nodup := hrebound ▸ h.nodup

/-- Answers stay told apart when one more is given. -/
theorem rebind (h : s.AnswersApart) (m : MethodToken) (ps : List TypeId) (σ : Substitution) :
    (storeAfter (rebindMethodParameters m ps σ) s).AnswersApart := by
  obtain ⟨-, hle, hrebound | ⟨-, hlt, hrebound⟩⟩ := tables_rebind m ps σ s
  · exact h.of_rebound_eq hrebound hle
  · refine ⟨fun hentry => ?_, ?_⟩
    · rw [hrebound] at hentry
      rcases List.mem_cons.mp hentry with rfl | hentry
      · exact hlt
      · exact Nat.lt_of_lt_of_le (h.method_lt hentry) hle
    · rw [hrebound, List.map_cons, List.nodup_cons]
      refine ⟨fun hmem => ?_, h.nodup⟩
      obtain ⟨entry, hentry, heq⟩ := List.mem_map.mp hmem
      have hmet := h.method_lt hentry
      rw [heq] at hmet
      exact Nat.lt_irrefl _ hmet

/-- **Requests whose answers have one method in common are one request.** -/
theorem key_eq (h : s.AnswersApart) {key key' : RebindKey}
    {answer answer' : MethodToken × List TypeId}
    (hlookup : s.rebound.lookup key = some answer) (hlookup' : s.rebound.lookup key' = some answer')
    (heq : answer.1 = answer'.1) : key = key' :=
  congrArg Prod.fst (List.inj_on_of_nodup_map h.nodup (mem_of_lookup_eq_some hlookup)
    (mem_of_lookup_eq_some hlookup') heq)

end Store.AnswersApart

/-- **An operation adds to the table of answers what parameters that are made again add to it**, and
nothing else. -/
theorem Operation.rebound_after (op : Operation) (s : Store) :
    ((op.after s).rebound = s.rebound ∧ s.nextMethod ≤ (op.after s).nextMethod) ∨
      ∃ m ps σ, op.after s = storeAfter (rebindMethodParameters m ps σ) s := by
  have hsame : ∀ {s' : Store}, s.SameTables s' →
      s'.rebound = s.rebound ∧ s.nextMethod ≤ s'.nextMethod := fun h =>
    ⟨h.rebound_eq, Nat.le_of_eq h.nextMethod_eq.symm⟩
  have hdiscard : ∀ {α : Type} {x : TypeM α}, Along Store.SameTables x →
      s.SameTables (storeAfter (do let _ ← x) s) := fun hx => (hx.bind fun _ => .pure ()) s
  cases op with
  | rebind m ps σ => exact .inr ⟨m, ps, σ, after_rebind m ps σ s⟩
  | newMethod => exact .inl ⟨rfl, Nat.le_succ _⟩
  | register name t => exact .inl ⟨rfl, Nat.le_refl _⟩
  | define name kind names =>
    have hparameters := Store.SameTables.addParameters (.type s.next) 0 names
      (s.add (Store.definitionInfo name kind)).2
    exact .inl ⟨hparameters.rebound_eq, Nat.le_of_eq hparameters.nextMethod_eq.symm⟩
  | methodParameters m names =>
    exact .inl (hsame (Store.SameTables.addParameters (.method m) 0 names s))
  | setBase t base => exact .inl ⟨rfl, Nat.le_refl _⟩
  | addInterface t interface => exact .inl ⟨rfl, Nat.le_refl _⟩
  | setSealed t value => exact .inl ⟨rfl, Nat.le_refl _⟩
  | setDefaultConstructor t value => exact .inl ⟨rfl, Nat.le_refl _⟩
  | constrain t flags constraints =>
    rcases after_constrain t flags constraints s with hafter | hafter <;> rw [hafter]
    · exact .inl ⟨rfl, Nat.le_refl _⟩
    · exact .inl ⟨rfl, Nat.le_refl _⟩
  | construct d args =>
    rw [after_eq_storeAfter]
    exact .inl (hsame (hdiscard (sameTables_construct d args)))
  | arrayOf e rank =>
    rw [after_eq_storeAfter]
    exact .inl (hsame (hdiscard (sameTables_arrayOf e rank)))
  | byRef e =>
    rw [after_eq_storeAfter]
    exact .inl (hsame (hdiscard (sameTables_byRef e)))
  | nullableOf t =>
    rw [after_eq_storeAfter]
    exact .inl (hsame (hdiscard (sameTables_construct _ [t])))
  | substitute σ t =>
    rw [after_eq_storeAfter]
    exact .inl (hsame (hdiscard (sameTables_substitute σ t)))

/-- **In every reachable store the answers are told apart.** -/
theorem Store.Reachable.answersApart {allowed : Store → Operation → Prop} {s : Store}
    (h : s.Reachable allowed) : s.AnswersApart := by
  induction h with
  | initial =>
    have hrebound : Store.initial.rebound = [] := by decide +kernel
    refine ⟨fun hentry => ?_, ?_⟩
    · rw [hrebound] at hentry
      cases hentry
    · rw [hrebound]
      exact .nil
  | @step s op _ _ _ ih =>
    rcases op.rebound_after s with ⟨hrebound, hle⟩ | ⟨m, ps, σ, hafter⟩
    · exact ih.of_rebound_eq hrebound hle
    · rw [hafter]
      exact ih.rebind m ps σ

/-! ### Stores that come later -/

/-- **A store that a run of operations leads to** from another one. -/
def Store.Before (s s' : Store) : Prop :=
  Relation.ReflTransGen (fun s s' => ∃ op : Operation, op.Valid s ∧ op.after s = s') s s'

namespace Store.Before

variable {s s' : Store}

/-- A request that was answered has the same answer ever after. -/
theorem lookup_rebound (h : s.Before s') {key : RebindKey} {answer : MethodToken × List TypeId}
    (hlookup : s.rebound.lookup key = some answer) : s'.rebound.lookup key = some answer := by
  induction h with
  | refl => exact hlookup
  | @tail s₁ s₂ _ hop ih =>
    obtain ⟨op, -, rfl⟩ := hop
    rcases op.rebound_after s₁ with ⟨hrebound, -⟩ | ⟨m, ps, σ, hafter⟩
    · rw [hrebound]
      exact ih
    · rw [hafter]
      exact (keepsTables_rebind m ps σ s₁).lookup_rebound ih

theorem reachable (h : s.Before s') {allowed : Store → Operation → Prop}
    (hs : s.Reachable allowed) : s'.Reachable fun _ _ => True := by
  induction h with
  | refl => exact hs.mono fun _ _ _ => trivial
  | tail _ hop ih =>
    obtain ⟨op, hvalid, rfl⟩ := hop
    exact .step ih hvalid trivial

end Store.Before

/-- **A request for something else is answered by something else**: by another method, with none of
the parameters that answered before. The method was met before, or it is the next one. -/
theorem disjoint_of_rebind {allowed : Store → Operation → Prop} {s s' : Store}
    (hreach : s.Reachable allowed) {key : RebindKey} {m' fresh fresh' : MethodToken}
    {ps' copies copies' : List TypeId} {σ' : Substitution}
    (hlookup : s.rebound.lookup key = some (fresh, copies))
    (hne : ⟨m', σ'.typeOwner, σ'.typeArguments⟩ ≠ key)
    (h : rebindMethodParameters m' ps' σ' s = .ok (fresh', copies') s') :
    fresh'.number ≤ s.nextMethod ∧ fresh' ≠ fresh ∧ ∀ c ∈ copies', c ∉ copies := by
  have hmem := mem_of_lookup_eq_some hlookup
  cases hlookup' : s.rebound.lookup ⟨m', σ'.typeOwner, σ'.typeArguments⟩ with
  | some answer =>
    rw [rebind_of_lookup hlookup'] at h
    cases h
    have happart : fresh' ≠ fresh := fun heq =>
      hne (hreach.answersApart.key_eq hlookup' hlookup heq)
    refine ⟨Nat.le_of_lt (hreach.answersApart.method_lt (mem_of_lookup_eq_some hlookup')), happart,
      fun c hc hc' => ?_⟩
    -- A parameter belongs to one method only.
    obtain ⟨k, hk⟩ := List.mem_iff_getElem?.mp hc
    obtain ⟨k', hk'⟩ := List.mem_iff_getElem?.mp hc'
    have hf := hreach.recorded.copies (mem_of_lookup_eq_some hlookup') hk
    rw [hreach.recorded.copies hmem hk'] at hf
    cases hf
    exact happart rfl
  | none =>
    rw [rebind_of_lookup_eq_none hlookup'] at h
    obtain ⟨_, s₁, -, h⟩ := exists_of_bind_eq_ok h
    cases h
    refine ⟨Nat.le_refl _, fun heq => ?_, fun c hc hc' => ?_⟩
    · have hmet := hreach.answersApart.method_lt hmem
      rw [← heq] at hmet
      exact Nat.lt_irrefl _ hmet
    · exact (Store.mem_copies ps' hc).1 (hreach.wellFormed.holds_rebound hmem c hc')

/-! ### Requests and answers -/

/-- **A request is answered by a faithful copy, once and for all**, where hierarchies end and there
is a number for another method. What answers a new request is a method that was not met before, with
a copy of each parameter. The constraints of a copy are those of the original with the type part of
the substitution applied and, at once, the copies in place of the parameters. No row that was there
is changed. Ever after the same request has the same answer, at no change of the store, and any
other request is answered as well, by another method and by other parameters. -/
theorem rebind_copies {allowed : Store → Operation → Prop} {s : Store}
    (hreach : s.Reachable allowed) (hends : s.Ends) (hroom : s.nextMethod < idLimit)
    {m : MethodToken} (hm : m.number < s.nextMethod) {ps : List TypeId}
    (hps : ∀ (k : Nat) t, ps[k]? = some t → s.form t = .parameter (.method m) k)
    {σ : Substitution} (hσ : σ.HeldBy s)
    (hnew : s.rebound.lookup ⟨m, σ.typeOwner, σ.typeArguments⟩ = none) :
    ∃ fresh copies s', rebindMethodParameters m ps σ s = .ok (fresh, copies) s' ∧
      (s.nextMethod ≤ fresh.number ∧ fresh.number < s'.nextMethod ∧ fresh.number < idLimit) ∧
      copies.length = ps.length ∧ (∀ c ∈ copies, ¬ s.Holds c ∧ s'.Holds c) ∧
      (∀ (k : Nat) t c, ps[k]? = some t → copies[k]? = some c →
        s.IsCopy s' (σ.typePart.withMethod m copies) fresh t c) ∧
      (∀ t, s.Holds t → s'.info t = s.info t) ∧
      ∀ later, s'.Before later →
        (∀ ps' σ', σ'.typeOwner = σ.typeOwner → σ'.typeArguments = σ.typeArguments →
          rebindMethodParameters m ps' σ' later = .ok (fresh, copies) later) ∧
        ∀ m' ps' σ', later.Ends → later.nextMethod < idLimit → (∀ t ∈ ps', later.Holds t) →
          σ'.HeldBy later →
          (⟨m', σ'.typeOwner, σ'.typeArguments⟩ : RebindKey) ≠ ⟨m, σ.typeOwner, σ.typeArguments⟩ →
          ∃ fresh' copies' s₁, rebindMethodParameters m' ps' σ' later = .ok (fresh', copies') s₁ ∧
            fresh'.number < idLimit ∧ fresh' ≠ fresh ∧ ∀ c ∈ copies', c ∉ copies := by
  have hs := hreach.wellFormed
  have hheld : ∀ t ∈ ps, s.Holds t := fun t ht => by
    obtain ⟨k, hk⟩ := List.mem_iff_getElem?.mp ht
    exact Store.holds_of_form_ne (by rw [hps k t hk]; exact Form.noConfusion)
  obtain ⟨⟨fresh, copies⟩, s', hrun⟩ := rebind_succeeds hs hends (.refl s) hs hheld m hσ
  obtain ⟨hgrown, -, hcopied⟩ := (builds_rebind hs ps m hσ).of_ok hrun
  obtain ⟨rfl, rfl, hcopies⟩ := copies_of_rebind hs hps hσ hnew hrun
  have hreach' : s'.Reachable fun _ _ => True := by
    have hafter : (Operation.rebind m ps σ).after s = s' := by
      rw [Operation.after_rebind, storeAfter_of_ok hrun]
    rw [← hafter]
    exact .step (hreach.mono fun _ _ _ => trivial) ⟨hm, hheld, hσ⟩ trivial
  have hlookup := lookup_of_rebind hrun
  refine ⟨_, _, s', hrun, ⟨Nat.le_refl _,
    hreach'.answersApart.method_lt (mem_of_lookup_eq_some hlookup), hroom⟩, s.length_copies ps,
    fun c hc => ⟨(Store.mem_copies ps hc).1, hcopied c hc⟩, hcopies, fun t ht => hgrown.info_eq ht,
    fun later hlater => ?_⟩
  have hanswer := hlater.lookup_rebound hlookup
  refine ⟨fun ps' σ' howner harguments => rebind_of_lookup ?_,
    fun m' ps' σ' hends' hroom' hps' hσ' hne => ?_⟩
  · rw [howner, harguments]
    exact hanswer
  · have hreach'' := hlater.reachable hreach'
    have hs'' := hreach''.wellFormed
    obtain ⟨⟨fresh', copies'⟩, s₁, hrun'⟩ :=
      rebind_succeeds hs'' hends' (.refl later) hs'' hps' m' hσ'
    obtain ⟨hle, happart⟩ := disjoint_of_rebind hreach'' hanswer hne hrun'
    exact ⟨fresh', copies', s₁, hrun', Nat.lt_of_le_of_lt hle hroom', happart⟩

/-- A run that defines boxes, which can be compared with boxes of the same, and a method with two
parameters. The first one is a box of the second and can be compared with itself, and the second one
can be compared with what is in a box. -/
def copyRun : List Operation :=
  [.define "Box" .classKind ["T"], .construct Core.equatable [⟨27⟩], .addInterface ⟨27⟩ ⟨29⟩,
    .newMethod, .methodParameters ⟨0⟩ ["U", "V"], .construct ⟨27⟩ [⟨31⟩],
    .construct Core.equatable [⟨30⟩], .construct Core.equatable [⟨28⟩],
    .constrain ⟨30⟩ Flags.reference [⟨32⟩, ⟨34⟩], .constrain ⟨31⟩ Flags.none [⟨35⟩]]

/-- The parameters of the method are made again for boxes of numbers, and asked for once more. Boxes
rank above what they can be compared as. -/
theorem rebind_copies_box : ∃ s s' fresh copies, s = Store.initial.afterAll copyRun ∧
    rebindMethodParameters ⟨0⟩ [⟨30⟩, ⟨31⟩] (.forType ⟨27⟩ [Core.int32]) s =
      .ok (fresh, copies) s' ∧
    (∃ c ∈ copies, s.IsCopy s' ((Substitution.forType ⟨27⟩ [Core.int32]).withMethod ⟨0⟩ copies)
      fresh ⟨30⟩ c) ∧
    rebindMethodParameters ⟨0⟩ [⟨30⟩, ⟨31⟩] (.forType ⟨27⟩ [Core.int32]) s' =
      .ok (fresh, copies) s' := by
  obtain ⟨s, heq, hreach, hmet, hforms, hσ, hnone, hsize, hranked⟩ : ∃ s : Store,
      s = Store.initial.afterAll copyRun ∧ s.Reachable (fun s op => op.Scoped s) ∧
      s.nextMethod = 1 ∧
      (s.form ⟨30⟩ = .parameter (.method ⟨0⟩) 0 ∧ s.form ⟨31⟩ = .parameter (.method ⟨0⟩) 1) ∧
      (Substitution.forType ⟨27⟩ [Core.int32]).isHeldBy s ∧
      s.rebound.lookup ⟨⟨0⟩, some ⟨27⟩, [Core.int32]⟩ = none ∧
      s.size < idLimit ∧ s.isRanked (fun t => if t = ⟨27⟩ then 1 else 0) :=
    ⟨_, rfl, .of_scopedRun (by decide +kernel), by decide +kernel⟩
  have hps : ∀ (k : Nat) t, ([⟨30⟩, ⟨31⟩] : List TypeId)[k]? = some t →
      s.form t = .parameter (.method ⟨0⟩) k := by
    rintro (_ | _ | k) t ht
    · cases ht
      exact hforms.1
    · cases ht
      exact hforms.2
    · cases ht
  have hends := Store.ends_of_isRanked hreach.wellFormed hsize _ hranked
  obtain ⟨fresh, copies, s', hrun, -, hlen, -, hcopy, -, hlater⟩ := rebind_copies hreach hends
    (by rw [hmet]; decide) (m := ⟨0⟩) (by rw [hmet]; decide) hps (Substitution.HeldBy.of_check hσ)
    hnone
  obtain ⟨c, hc⟩ : ∃ c, copies[0]? = some c :=
    ⟨_, List.getElem?_eq_getElem (Nat.lt_of_lt_of_eq Nat.two_pos hlen.symm)⟩
  exact ⟨s, s', fresh, copies, heq, hrun, ⟨c, List.mem_of_getElem? hc, hcopy 0 _ c rfl hc⟩,
    (hlater s' .refl).1 _ _ rfl rfl⟩

/-! ### Requests that are not answered -/

/-- **A base that is made from its own definition expands**: above a constructed type that is
complete stands another one of the same definition, which was made after it. -/
theorem Store.Complete.exists_later {s : Store} (hs : s.Formed) {d b t : TypeId} {shape : Shape}
    (hbase : (s.info d).base = some b) (hb : s.form b = .named shape (some d) [d])
    (ht : (s.info t).definition = some d) (hcomplete : s.Complete t) :
    ∃ u, (s.info u).definition = some d ∧ t.index < u.index := by
  obtain ⟨shape', hft⟩ := hs.form_of_definition ht
  have hrel := (hcomplete.constructed hft).base
  rw [hbase] at hrel
  generalize (s.info t).base = o at hrel
  cases hrel with
  | @some _ u himage =>
    obtain ⟨c, bs, hfu, hhead, hargs⟩ := (Image.named_iff hb).mp himage
    obtain ⟨a, rfl⟩ := List.length_eq_one_iff.mp (Image.length_eq hs hb hfu hhead)
    obtain rfl : a = t := (hargs 0 d a rfl rfl).unique_of_sends hs
      ((hs.isConstructed ht).image_definition hs)
    rw [head_of_named hb, head_of_named hfu] at hhead
    cases c with
    | none =>
      -- The argument of a definition is a parameter, and a constructed type is none.
      have hown := hs.own_parameter hfu (k := 0) rfl
      cases hft.symm.trans hown
    | some c =>
      refine ⟨u, ?_, hs.part_lt (by rw [hfu]; rfl) (argument_mem_parts hfu List.mem_cons_self)⟩
      rw [(TypeInfo.form_eq_named_iff.mp hfu).2.1]
      exact congrArg some hhead

/-- **Nothing is constructed** from a definition with such a base: what is constructed from it and
is complete was there before. -/
theorem Store.CompletedBy.holds_of_expanding {s s' : Store} (h : s.CompletedBy s') (hs' : s'.Formed)
    {d b t : TypeId} {shape : Shape} (hbase : (s'.info d).base = some b)
    (hb : s'.form b = .named shape (some d) [d]) (ht : (s'.info t).definition = some d) :
    s.Holds t := by
  by_contra hnew
  -- Otherwise there are such types with arbitrarily great numbers.
  have hall : ∀ n, ∃ u, (s'.info u).definition = some d ∧ ¬ s.Holds u ∧ n ≤ u.index := by
    intro n
    induction n with
    | zero => exact ⟨t, ht, hnew, Nat.zero_le _⟩
    | succ n ih =>
      obtain ⟨u, hu, hnewu, hle⟩ := ih
      obtain ⟨v, hv, hlt⟩ := (h u (hs'.isConstructed hu).holds hnewu).1.exists_later hs' hbase hb hu
      refine ⟨v, hv, fun hcon => hnewu (Nat.lt_trans hlt hcon), Nat.lt_of_le_of_lt hle hlt⟩
  obtain ⟨u, hu, -, hle⟩ := hall s'.size
  exact absurd (hs'.isConstructed hu).holds (Nat.not_lt_of_le hle)

/-- The image of a definition under a substitution for its own parameters is constructed from it. -/
theorem Image.isConstructed {s : Store} (hs : s.Formed) {d u : TypeId} {shape : Shape}
    {own : List TypeId} (hd : s.form d = .named shape none own) (hnil : own ≠ [])
    {σ : Substitution} (howner : σ.typeOwner = some d) (hlen : own.length = σ.typeArguments.length)
    (himage : Image s σ.Sends d u) : s.IsConstructed d σ.typeArguments u := by
  obtain ⟨c, bs, hfu, hhead, himages⟩ := (Image.named_iff hd).mp himage
  have hbs := Image.length_eq hs hd hfu hhead
  obtain rfl := hs.eq_typeArguments_of_images hd howner hlen hbs himages
  refine ⟨Store.holds_of_form_ne fun hcon => ?_, hhead.trans (Store.head_of_named hd), shape, c,
    hfu⟩
  rw [hfu, Form.named.injEq] at hcon
  rw [hcon.2.2] at hlen
  exact hnil (List.eq_nil_of_length_eq_zero hlen)

/-- **A request is not answered** where a constraint has to be constructed from a definition whose
base is made from the definition itself. -/
theorem not_succeeds_of_expanding {s : Store} (hs : s.WellFormed) {m : MethodToken}
    {ps : List TypeId} (hps : ∀ (k : Nat) t, ps[k]? = some t → s.form t = .parameter (.method m) k)
    {σ : Substitution} (hσ : σ.HeldBy s)
    (hnone : s.rebound.lookup ⟨m, σ.typeOwner, σ.typeArguments⟩ = none) {k : Nat} {t d b : TypeId}
    (ht : ps[k]? = some t) (hconstraint : d ∈ (s.info t).constraints) {shape shape' : Shape}
    {own : List TypeId} (hd : s.form d = .named shape none own) (hnil : own ≠ [])
    (hbase : (s.info d).base = some b) (hb : s.form b = .named shape' (some d) [d])
    (howner : σ.typeOwner = some d) (hlen : own.length = σ.typeArguments.length)
    (hown : own ≠ σ.typeArguments) (hnew : s.constructed? d σ.typeArguments = none) :
    ¬ Succeeds (rebindMethodParameters m ps σ) s := by
  rintro ⟨⟨fresh, copies⟩, s', hrun⟩
  obtain ⟨hgrown, hcompleted, -⟩ := (builds_rebind hs ps m hσ).of_ok hrun
  have hs' := hgrown.wellFormed.toFormed
  obtain ⟨-, rfl, hcopies⟩ := copies_of_rebind hs hps hσ hnone hrun
  obtain ⟨c, hc⟩ : ∃ c, (s.copies ps).1[k]? = some c := by
    obtain ⟨hk, -⟩ := List.getElem?_eq_some_iff.mp ht
    exact ⟨_, List.getElem?_eq_getElem ((s.length_copies ps).symm ▸ hk)⟩
  obtain ⟨p, constraints, hp, -, himages⟩ := hcopies k t c ht hc
  rw [TypeInfo.constraints_of_parameter hp] at hconstraint
  obtain ⟨u, -, himage⟩ := exists_mem_of_forall₂ himages hconstraint
  have hheld := Store.holds_of_isDefinition (TypeInfo.isDefinition_of_form hd hnil)
  have hd' := (hgrown.form_eq hheld).trans hd
  have hmade : s'.IsConstructed d (σ.typePart.withMethod m (s.copies ps).1).typeArguments u :=
    himage.isConstructed hs' hd' hnil howner hlen
  obtain ⟨shape'', c', hfu⟩ := hmade.named
  have hhead := (Store.head_of_named hfu).symm.trans hmade.head_eq
  have hdefinition : (s'.info u).definition = some d := by
    rw [(TypeInfo.form_eq_named_iff.mp hfu).2.1]
    cases c' with
    | none =>
      obtain rfl : u = d := hhead
      cases hfu.symm.trans hd'
      exact absurd rfl hown
    | some c' => exact congrArg some hhead
  -- So it was there, and would have been found.
  have hold : s.Holds u := hcompleted.holds_of_expanding hs' ((hgrown.info_eq hheld).symm ▸ hbase)
    ((hgrown.form_eq (hs.holds_above (TypeInfo.base_mem_above hbase))).trans hb) hdefinition
  rw [hgrown.info_eq hold] at hdefinition
  rw [hgrown.form_eq hold] at hfu
  have hmissed := Store.of_find?_eq_none hnew hold
  rw [decide_eq_false_iff_not] at hmissed
  exact hmissed ⟨hdefinition, Store.arguments_of_named hfu⟩

/-- A run in which the base of a definition expands: above `A<T>` stands `A<A<T>>`. A method has one
parameter, which has to be an `A<T>`. -/
def expandingRun : List Operation :=
  [.define "A" .classKind ["T"], .construct ⟨27⟩ [⟨27⟩], .setBase ⟨27⟩ ⟨29⟩, .newMethod,
    .methodParameters ⟨0⟩ ["U"], .constrain ⟨30⟩ Flags.none [⟨27⟩]]

/-- A run that defines boxes and a method with one parameter, which can be compared with what is in
a box. -/
def comparableRun : List Operation :=
  [.define "Box" .classKind ["T"], .newMethod, .methodParameters ⟨0⟩ ["U"],
    .construct Core.equatable [⟨28⟩], .constrain ⟨29⟩ Flags.none [⟨30⟩]]

/-- **Parameters are not made again** where a base expands: their constraints would have to be made
first, and above one `A` stands always another one that was made later. **And what takes the place
of a type parameter stays as it is**: where that is a parameter of the method itself, the
constraints of the copies are about this parameter and not about its copy. -/
theorem rebind_differs :
    (∃ s, s = Store.initial.afterAll expandingRun ∧ s.Reachable (fun s op => op.Scoped s) ∧
      s.form ⟨30⟩ = .parameter (.method ⟨0⟩) 0 ∧
      s.rebound.lookup ⟨⟨0⟩, some ⟨27⟩, [Core.int32]⟩ = none ∧
      ¬ Succeeds (rebindMethodParameters ⟨0⟩ [⟨30⟩] (.forType ⟨27⟩ [Core.int32])) s) ∧
    ∃ s s', s = Store.initial.afterAll comparableRun ∧ s.Reachable (fun s op => op.Scoped s) ∧
      s.form ⟨29⟩ = .parameter (.method ⟨0⟩) 0 ∧
      s.rebound.lookup ⟨⟨0⟩, some ⟨27⟩, [⟨29⟩]⟩ = none ∧
      rebindMethodParameters ⟨0⟩ [⟨29⟩] (.forType ⟨27⟩ [⟨29⟩]) s = .ok (⟨1⟩, [⟨31⟩]) s' ∧
      ∃ c ∈ (s'.info ⟨31⟩).constraints, s'.Mentions c ⟨29⟩ := by
  refine ⟨?_, ?_⟩
  · obtain ⟨s, heq, hreach, hform, hnone, hσ, hconstraints, hown, hbase, hb, hnew⟩ : ∃ s : Store,
        s = Store.initial.afterAll expandingRun ∧ s.Reachable (fun s op => op.Scoped s) ∧
        s.form ⟨30⟩ = .parameter (.method ⟨0⟩) 0 ∧
        s.rebound.lookup ⟨⟨0⟩, some ⟨27⟩, [Core.int32]⟩ = none ∧
        (Substitution.forType ⟨27⟩ [Core.int32]).isHeldBy s ∧ (s.info ⟨30⟩).constraints = [⟨27⟩] ∧
        s.form ⟨27⟩ = .named .classType none [⟨28⟩] ∧ (s.info ⟨27⟩).base = some ⟨29⟩ ∧
        s.form ⟨29⟩ = .named .classType (some ⟨27⟩) [⟨27⟩] ∧
        s.constructed? ⟨27⟩ [Core.int32] = none :=
      ⟨_, rfl, .of_scopedRun (by decide +kernel), by decide +kernel⟩
    have hps : ∀ (k : Nat) t, ([⟨30⟩] : List TypeId)[k]? = some t →
        s.form t = .parameter (.method ⟨0⟩) k := by
      rintro (_ | k) t ht
      · cases ht
        exact hform
      · cases ht
    exact ⟨s, heq, hreach, hform, hnone, not_succeeds_of_expanding hreach.wellFormed hps
      (.of_check hσ) hnone (k := 0) rfl (hconstraints ▸ List.mem_cons_self) hown
      (List.cons_ne_nil _ _) hbase hb rfl rfl (by decide) hnew⟩
  · have hsucceeds : succeedsWith (rebindMethodParameters ⟨0⟩ [⟨29⟩] (.forType ⟨27⟩ [⟨29⟩]))
        (Store.initial.afterAll comparableRun) fun answer s' => answer = (⟨1⟩, [⟨31⟩]) ∧
          (s'.info ⟨31⟩).constraints = [⟨32⟩] ∧
          s'.form ⟨32⟩ = .named .interfaceType (some Core.equatable) [⟨29⟩] ∧
          s'.form ⟨29⟩ = .parameter (.method ⟨0⟩) 0 := by
      decide +kernel
    obtain ⟨answer, s', hrun, htest⟩ := exists_of_succeedsWith hsucceeds
    obtain ⟨rfl, hconstraints, hf, hparameter⟩ := of_decide_eq_true htest
    refine ⟨_, s', rfl, .of_scopedRun (by decide +kernel), by decide +kernel, by decide +kernel,
      hrun, ⟨32⟩, ?_, .part (Store.argument_mem_parts hf List.mem_cons_self) (.self hparameter)⟩
    rw [hconstraints]
    exact List.mem_cons_self

end CallSite
