import CallSite.Call.Parameter
import CallSite.Call.Weight
import CallSite.Match.Search

/-!
# Fitting arguments to parameters

A call **fits** a list of parameters when every argument goes to a parameter that accepts it and
every parameter without an argument has a default.

* `Source` – where the value of a parameter comes from.
* `namesFit` – every named argument goes to a parameter of its own.
* `fitArgument` – one argument goes to one parameter.
* `fitParameters` – the whole list: the sources of all parameters, the weight, and the types that
  were inferred on the way.
-/

namespace CallSite

/-- Where the value of a parameter comes from. -/
inductive Source
  /-- The positional argument at an index. -/
  | positional (index : Nat)
  /-- The named argument that a name finds. -/
  | named (name : String)
  /-- The default of the parameter. -/
  | default
deriving DecidableEq, Repr

/-- **How a call fits a list of parameters.** -/
structure Fit where
  /-- What was counted. -/
  weight : Weight := {}
  /-- Where the value of each parameter comes from. -/
  sources : List Source := []
deriving DecidableEq, Repr

/-- The types that were inferred for the parameters of the queried type and of the method. -/
structure Inferred where
  /-- The slots for parameters of the queried type. -/
  typeSlots : Slots := Slots.empty
  /-- The slots for parameters of the candidate method. -/
  methodSlots : Slots := Slots.empty
deriving DecidableEq, Repr

/-- Begin a match whose cost is counted from zero. -/
def Inferred.start (inferred : Inferred) : Inference :=
  { typeSlots := inferred.typeSlots, methodSlots := inferred.methodSlots }

/-- The types that a match has inferred. -/
def Inference.inferred (i : Inference) : Inferred :=
  { typeSlots := i.typeSlots, methodSlots := i.methodSlots }

/-! ### Named arguments -/

/-- Each of the names goes to the first parameter that it names, which is not among those `taken`
by a positional argument or by a name before it. -/
def namesFit (names : NameComparison) (parameters : List Parameter) (positional : Nat) :
    List Nat → List String → Bool
  | _, [] => true
  | taken, name :: rest =>
    match parameters.findIdx? fun p => p.isNamed names name with
    | none => false
    | some index =>
      if index < positional || taken.contains index then false
      else namesFit names parameters positional (index :: taken) rest

/-! ### One argument -/

section Arguments

variable (s : Store) (depth : Nat)

/-- The variance under which an argument flows into a parameter: an out parameter gives a value, a
reference gives and takes, and any other parameter takes one. -/
def argumentVariance (p : Parameter) : Variance :=
  if p.isOut then .covariant else if p.isByRef s then .invariant else .contravariant

/-- Count a parameter whose type mentions generic parameters. -/
def countOpen (p : Parameter) (w : Weight) : Weight :=
  let declared := s.stripByRef p.type
  if s.isOpen declared then
    if (s.info declared).isInterface then { w with genericInterfaces := w.genericInterfaces + 1 }
    else { w with genericTypes := w.genericTypes + 1 }
  else w

/-- Count an argument that has exactly the type of its parameter. -/
def countIdentical (t : TypeId) (p : Parameter) (w : Weight) : Weight :=
  if s.stripByRef t = s.stripByRef p.type then { w with identical := w.identical + 1 } else w

/-- **One argument goes to one parameter.** Null needs a place that it may be stored in; any other
argument needs a match. -/
def fitArgument (p : Parameter) (a : Argument) (w : Weight) (inferred : Inferred) :
    Option (Weight × Inferred) :=
  match a.type with
  | none => if s.isNullAssignable p.type then some (countOpen s p w, inferred) else none
  | some t =>
    (s.matches depth t (argumentVariance s p) p.type inferred.start).map fun i =>
      (countOpen s p (countIdentical s t p (w.absorb i.cost)), i.inferred)

/-! ### All arguments -/

/-- The argument that goes to a parameter, and how it gets there. -/
def supplied? (names : NameComparison) (arguments : Arguments) (index : Nat) (p : Parameter) :
    Option (Argument × Source) :=
  match arguments.positional[index]? with
  | some a => some (a, .positional index)
  | none => p.givenName.bind fun name =>
    (arguments.findNamed names name).map fun a => (a, .named name)

/-- Fit the parameter at an index to what is left of the call. -/
def fitParameter (names : NameComparison) (arguments : Arguments) (fit : Fit × Inferred)
    (entry : Parameter × Nat) : Option (Fit × Inferred) :=
  let (p, index) := entry
  let w := { fit.1.weight with total := fit.1.weight.total + 1 }
  match supplied? names arguments index p with
  | some (a, source) =>
    (fitArgument s depth p a w fit.2).map fun (w, inferred) =>
      ({ weight := { w with specified := w.specified + 1 }
         sources := fit.1.sources ++ [source] }, inferred)
  | none =>
    if p.isOptional then
      some ({ weight := { w with required := w.required + 1 }
              sources := fit.1.sources ++ [.default] }, fit.2)
    else none

/-- **Fit a list of parameters to a call.** The types inferred before are kept, and nothing is
inferred by a call that does not fit. -/
def fitParameters (names : NameComparison) (parameters : List Parameter) (arguments : Arguments)
    (inferred : Inferred) : Option (Fit × Inferred) :=
  if parameters.length < arguments.positional.length then none
  else if namesFit names parameters arguments.positional.length []
      (arguments.named.map Prod.fst) then
    parameters.zipIdx.foldlM (fitParameter s depth names arguments) ({}, inferred)
  else none

end Arguments

end CallSite
