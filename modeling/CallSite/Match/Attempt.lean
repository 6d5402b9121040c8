/-!
# Attempts

The search for a match tries one way after another. An **attempt** at one way is accepted with a
result, or refused, so that the next way is tried from where this one began; and since the search
is cut off at some depth, it may also be left unfinished, which decides nothing.

`Attempt.bind` continues an accepted attempt and `Attempt.orElse` replaces a refused one. An
unfinished attempt is neither continued nor replaced.
-/

namespace CallSite

/-- What comes of trying one way. -/
inductive Attempt (α : Type) where
  /-- The way leads to a result. -/
  | accepted (result : α)
  /-- The way leads nowhere. -/
  | refused
  /-- The way is too deep to be followed to its end. -/
  | unfinished
deriving DecidableEq, Repr

namespace Attempt

variable {α β : Type}

/-- Go on from an accepted attempt. -/
def bind (attempt : Attempt α) (next : α → Attempt β) : Attempt β :=
  match attempt with
  | .accepted result => next result
  | .refused => .refused
  | .unfinished => .unfinished

/-- Try another way after a refused attempt. -/
def orElse (attempt : Attempt α) (other : Unit → Attempt α) : Attempt α :=
  match attempt with
  | .accepted result => .accepted result
  | .refused => other ()
  | .unfinished => .unfinished

/-- Change the result of an accepted attempt. -/
def map (change : α → β) (attempt : Attempt α) : Attempt β :=
  attempt.bind fun result => .accepted (change result)

/-- Accept the result only where a condition holds. -/
def guard (condition : Bool) (result : α) : Attempt α :=
  if condition then .accepted result else .refused

/-- Go on from state to state, one item after another, as long as each is accepted. -/
def all (step : β → α → Attempt α) : List β → α → Attempt α
  | [], state => .accepted state
  | item :: items, state => (step item state).bind (all step items)

/-- The first item whose attempt is not refused, with every attempt from the same state. -/
def any (step : β → α → Attempt α) : List β → α → Attempt α
  | [], _ => .refused
  | item :: items, state => (step item state).orElse fun _ => any step items state

/-! ### When an attempt is accepted -/

theorem bind_eq_accepted_iff {attempt : Attempt α} {next : α → Attempt β} {b : β} :
    attempt.bind next = .accepted b ↔ ∃ a, attempt = .accepted a ∧ next a = .accepted b := by
  cases attempt <;> simp [bind]

theorem orElse_eq_accepted_iff {attempt : Attempt α} {other : Unit → Attempt α} {a : α} :
    attempt.orElse other = .accepted a ↔
      attempt = .accepted a ∨ (attempt = .refused ∧ other () = .accepted a) := by
  cases attempt <;> simp [orElse]

theorem map_eq_accepted_iff {attempt : Attempt α} {change : α → β} {b : β} :
    attempt.map change = .accepted b ↔ ∃ a, attempt = .accepted a ∧ change a = b := by
  cases attempt <;> simp [map, bind]

/-- Going on twice is going on once, by both steps. -/
theorem bind_assoc {γ : Type} (attempt : Attempt α) (f : α → Attempt β) (g : β → Attempt γ) :
    (attempt.bind f).bind g = attempt.bind fun a => (f a).bind g := by
  cases attempt <;> rfl

/-- The result of an accepted attempt. -/
def toOption : Attempt α → Option α
  | .accepted result => some result
  | .refused => none
  | .unfinished => none

theorem toOption_eq_some_iff {attempt : Attempt α} {a : α} :
    attempt.toOption = some a ↔ attempt = .accepted a := by
  cases attempt <;> simp [toOption]

end Attempt

end CallSite
