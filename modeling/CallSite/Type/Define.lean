import CallSite.Type.Construct

/-!
# Defining types and methods

* `Store.define` – a new named type, with its generic parameters.
* `Store.setBase`, `Store.addInterface`, `Store.setSealed`, `Store.setDefaultConstructor` –
  complete a type after it was defined.
* `Store.constrain` – give constraints to a generic parameter.
* `Store.defineMethodParameters` – the generic parameters of a method.
* `rebindMethodParameters` – make the parameters of a method again, with their constraints changed
  by a substitution. The same request is answered by the same parameters.
-/

namespace CallSite

namespace Store

/-! ### Types -/

/-- The row of a generic parameter without constraints. -/
def parameterInfo (name : String) (owner : Owner) (position : Nat) : TypeInfo :=
  { name := name, shape := .parameter { owner := owner, position := position } }

/-- Make a generic parameter for each name, the first at `position`. -/
def addParameters (owner : Owner) : Nat → List String → Store → List TypeId × Store
  | _, [], s => ([], s)
  | position, name :: names, s =>
    let (parameter, s) := s.add (parameterInfo name owner position)
    let (parameters, s) := addParameters owner (position + 1) names s
    (parameter :: parameters, s)

/-- The row with which a definition of some kind begins. -/
def definitionInfo (name : String) : DefinitionKind → TypeInfo
  | .classKind =>
    { name, shape := .classType, base := some Core.object, hasDefaultConstructor := true }
  | .sealedKind =>
    { name, shape := .classType, base := some Core.object, hasDefaultConstructor := true
      isSealed := true }
  | .interfaceKind => { name, shape := .interfaceType }
  | .structKind =>
    { name, shape := .structType, base := some Core.valueType, hasDefaultConstructor := true
      isSealed := true }

/-- The name under which a type with `arity` generic parameters is found. A type without parameters
and a generic one may so share a simple name. -/
def registeredName (name : String) (arity : Nat) : String :=
  if arity = 0 then name else name ++ "\x60" ++ toString arity

/-- **A new named type** with generic parameters of the given names. -/
def define (s : Store) (name : String) (kind : DefinitionKind) (parameters : List String) :
    TypeId × Store :=
  let (t, s) := s.add (definitionInfo name kind)
  let (arguments, s) := addParameters (.type t) 0 parameters s
  let s := s.edit t fun info => { info with arguments := arguments }
  (t, s.register (registeredName name parameters.length) t)

/-- Set the base of a type. -/
def setBase (s : Store) (t base : TypeId) : Store :=
  s.edit t fun info => { info with base := some base }

/-- Declare an interface on a type; one that it declares already is left alone. -/
def addInterface (s : Store) (t interface : TypeId) : Store :=
  s.edit t fun info =>
    if interface ∈ info.interfaces then info
    else { info with interfaces := info.interfaces ++ [interface] }

/-- Say whether anything may derive from a type. -/
def setSealed (s : Store) (t : TypeId) (value : Bool) : Store :=
  s.edit t fun info => { info with isSealed := value }

/-- Say whether a type can be made without arguments. -/
def setDefaultConstructor (s : Store) (t : TypeId) (value : Bool) : Store :=
  s.edit t fun info => { info with hasDefaultConstructor := value }

/-! ### Generic parameters -/

/-- Set the constraints of a generic parameter; any other type is left alone. -/
def setConstraints (s : Store) (t : TypeId) (flags : Flags) (constraints : List TypeId) : Store :=
  s.edit t fun info =>
    match info.shape with
    | .parameter p =>
      { info with shape := .parameter { p with flags := flags, constraints := constraints } }
    | _ => info

/-- **Give constraints to a generic parameter**, in place of those it had. -/
def constrain (s : Store) (t : TypeId) (flags : Flags) (constraints : List TypeId) :
    Except TypeError Store :=
  if (s.info t).isParameter then .ok (s.setConstraints t flags constraints)
  else .error (.notParameter (s.display t))

/-- The generic parameters of a method. -/
def defineMethodParameters (s : Store) (method : MethodToken) (names : List String) :
    List TypeId × Store :=
  addParameters (.method method) 0 names s

end Store

/-! ### Methods under a substitution -/

/-- Copy the constraints of a parameter to another, with a substitution applied to them. -/
def copyConstraints (σ : Substitution) (old new : TypeId) : TypeM Unit := do
  match ((← get).info old).parameter? with
  | none => return
  | some p =>
    let constraints ← p.constraints.mapM (substitute σ)
    modify (·.setConstraints new p.flags constraints)

/-- **Make the parameters of a method again**, under a new token. The constraints of the copies are
those of the parameters with the type part of the substitution applied, and with each parameter
replaced by its copy. -/
def rebindMethodParameters (method : MethodToken) (parameters : List TypeId) (σ : Substitution) :
    TypeM (MethodToken × List TypeId) := do
  let key : RebindKey := ⟨method, σ.typeOwner, σ.typeArguments⟩
  let s ← get
  match s.rebound.lookup key with
  | some found => return found
  | none =>
    let names := parameters.map fun p => (s.info p).name
    let fresh ← modifyGet (·.newMethod)
    let copies ← modifyGet (·.defineMethodParameters fresh names)
    let inner := σ.typePart.withMethod method copies
    (parameters.zip copies).forM fun (old, new) => copyConstraints inner old new
    modify fun s => { s with rebound := (key, (fresh, copies)) :: s.rebound }
    return (fresh, copies)

end CallSite
