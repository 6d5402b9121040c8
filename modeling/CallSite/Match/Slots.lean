import CallSite.Type.Basic

/-!
# Slots for the arguments of generic parameters

While a match infers the arguments of a generic type or method it keeps a **slot** for each
parameter. A slot is empty until a type is bound to it, and what is bound stays.

* `Slots.bind` – fill a slot, confirm it, or meet a conflict.
* `Slots.owns` – a parameter has a slot here.
* `Slots.values` – the types of all slots, once none is empty.
-/

namespace CallSite

/-- The slots for the parameters of one generic type or method. -/
structure Slots where
  /-- The type or method whose parameters have slots. -/
  owner : Option Owner := none
  /-- What is bound to each parameter. -/
  bound : List (Option TypeId) := []
deriving DecidableEq, Repr

/-- What comes of binding a type to a slot. -/
inductive Binding
  /-- The slot was empty and holds the type. -/
  | bound
  /-- The slot held the type already. -/
  | confirmed
  /-- The slot holds another type, which it keeps. -/
  | conflict (kept : TypeId)
deriving DecidableEq, Repr

namespace Slots

/-- No slots, for what is not generic or not open. -/
def empty : Slots := {}

/-- Empty slots for `arity` parameters of an owner. -/
def ofArity (owner : Owner) (arity : Nat) : Slots :=
  { owner := some owner, bound := List.replicate arity none }

/-- The number of slots. -/
def arity (slots : Slots) : Nat :=
  slots.bound.length

/-- The parameter has a slot here. -/
def owns (slots : Slots) (p : GenericParameter) : Bool :=
  slots.owner = some p.owner && p.position < slots.arity

/-- What is bound to the parameter at a position. -/
def get? (slots : Slots) (position : Nat) : Option TypeId :=
  slots.bound[position]?.join

/-- Let a slot hold a type. -/
def put (slots : Slots) (position : Nat) (t : TypeId) : Slots :=
  { slots with bound := slots.bound.set position (some t) }

/-- **Bind a type to a slot** unless the slot holds a type already. A slot that does not exist
conflicts with every type. -/
def bind (slots : Slots) (position : Nat) (t : TypeId) : Binding × Slots :=
  match slots.bound[position]? with
  | none => (.conflict t, slots)
  | some none => (.bound, slots.put position t)
  | some (some kept) => (if kept = t then .confirmed else .conflict kept, slots)

/-- The number of slots that hold a type. -/
def boundCount (slots : Slots) : Nat :=
  slots.bound.countP Option.isSome

/-- Every slot holds a type. -/
def isComplete (slots : Slots) : Bool :=
  slots.bound.all Option.isSome

/-- The types of all slots, if every slot holds one. -/
def values (slots : Slots) : Option (List TypeId) :=
  slots.bound.mapM id

/-! ### What a slot holds -/

@[simp]
theorem owner_put (slots : Slots) (position : Nat) (t : TypeId) :
    (slots.put position t).owner = slots.owner := rfl

@[simp]
theorem arity_put (slots : Slots) (position : Nat) (t : TypeId) :
    (slots.put position t).arity = slots.arity := by
  simp [put, arity]

@[simp]
theorem owns_put (slots : Slots) (position : Nat) (t : TypeId) (p : GenericParameter) :
    (slots.put position t).owns p = slots.owns p := by
  unfold owns
  rw [arity_put]
  rfl

theorem get?_put_self {slots : Slots} {position : Nat} (t : TypeId)
    (h : position < slots.arity) : (slots.put position t).get? position = some t := by
  have h' : position < slots.bound.length := h
  simp [get?, put, h']

theorem get?_put_of_ne (slots : Slots) {i j : Nat} (t : TypeId) (h : i ≠ j) :
    (slots.put i t).get? j = slots.get? j := by
  simp [get?, put, List.getElem?_set_ne h]

theorem get?_ofArity (owner : Owner) (arity position : Nat) :
    (ofArity owner arity).get? position = none := by
  unfold get? ofArity
  rw [List.getElem?_replicate]
  split <;> rfl

theorem get?_empty (position : Nat) : empty.get? position = none := rfl

/-- **A slot is bound once**: it takes a type only while it is empty. -/
theorem bind_fst_eq_bound_iff {slots : Slots} {position : Nat} {t : TypeId} :
    (slots.bind position t).1 = .bound ↔
      position < slots.arity ∧ slots.get? position = none := by
  have hlt : position < slots.arity ↔ slots.bound[position]? ≠ none := by
    simp [arity]
  rw [hlt, bind, get?]
  rcases slots.bound[position]? with _ | _ | kept
  · simp
  · simp
  · by_cases hk : kept = t <;> simp [hk]

end Slots

end CallSite
