import CallSite.Resolve.Resolver

/-!
# Calling what was resolved

A **host** can touch members: it reads and writes them, calls them, and adds handlers to them. Here
a member is resolved, the host is asked to act on it, and what the member wrote is handed back to
the caller.

* `Request`, `Reply`, `Invoker` – what the host is asked and what it answers.
* `Frame` – what is kept while the host is used: the types, the arguments of the caller, and what
  the host was asked.
* `Host.argumentValues` – one value for each formal parameter.
* `Host.writeBack` – what the member wrote into parameters that are passed by reference.
* `Host.getField`, `Host.setProperty`, `Host.callMethod`, `Host.construct`, … – the operations.

Through a type, as opposed to an instance, only static members are seen: the mask is taken with the
options applied, and then loses the members of instances.
-/

namespace CallSite

/-! ### What the host is asked -/

/-- What the host is asked to do with a member. -/
inductive Action
  /-- Read a field or a property. -/
  | getValue
  /-- Write a field or a property; the value is the last argument. -/
  | setValue
  /-- Call a method. -/
  | call
  /-- Run a constructor. -/
  | construct
  /-- Add a handler to an event. -/
  | addHandler
  /-- Take a handler away from an event. -/
  | removeHandler
deriving DecidableEq, Repr

/-- **What the host is asked.** -/
structure Request where
  /-- The member. -/
  member : Member
  /-- What to do with it. -/
  action : Action
  /-- The instance, unless the member is static or a constructor. -/
  target : Option Value
  /-- The values that are passed. -/
  arguments : List Value
deriving DecidableEq, Repr

/-- **What the host answers.** -/
structure Reply where
  /-- The values that were passed, with what the member wrote in their places. -/
  arguments : List Value
  /-- What came of it. -/
  result : Except InvokeError Value

/-- How a host answers requests. -/
abbrev Invoker := Request → Reply

/-- What can wait for a value that is not there yet. -/
structure Awaiter where
  /-- Values of the type have to be waited for. -/
  isAwaitable : Store → TypeId → Bool
  /-- Wait for a value that a member returned. -/
  await : Member → Value → Except InvokeError Value

/-- On what a member is looked for. -/
inductive Target
  /-- An instance. -/
  | object (value : Value)
  /-- A type, whose static members are looked for. -/
  | type (type : TypeId)
deriving DecidableEq, Repr

namespace Target

/-- The type on which the member is looked for; null has none. -/
def type? : Target → Except ResolveError TypeId
  | .object value =>
    match value.type? with
    | some t => .ok t
    | none => .error .nullTarget
  | .type t => .ok t

/-- The instance. -/
def object? : Target → Option Value
  | .object value => some value
  | .type _ => none

end Target

/-! ### What is kept while the host is used -/

/-- What is kept while the host is used. -/
structure Frame where
  /-- The types. -/
  store : Store
  /-- The arguments of the caller, which a call may write to. -/
  arguments : Arguments := {}
  /-- What the host was asked, in order. -/
  requests : List Request := []

/-- A computation that may use the host. What was changed before a failure stays changed. -/
abbrev HostM := EStateM ResolveError Frame

/-- Resolve a member while the host is used. -/
def ofResolve {α : Type} (action : ResolveM α) : HostM α := fun frame =>
  match action frame.store with
  | .ok a s => .ok a { frame with store := s }
  | .error e s => .error e { frame with store := s }

/-- Use what succeeds or fails at once while the host is used. -/
def ofExcept {α : Type} : Except ResolveError α → HostM α
  | .ok a => pure a
  | .error e => throw e

/-- **What resolves members and asks a host to act on them.** -/
structure Host where
  /-- What resolves members. -/
  resolver : Resolver
  /-- The host. -/
  invoker : Invoker

namespace Host

variable (host : Host)

/-- How the names of arguments are compared. -/
def comparison (arguments : Arguments) : NameComparison :=
  host.resolver.options.comparison arguments

/-! ### Asking the host -/

/-- Put a request to the host: the values with what was written, and the result. -/
def ask (request : Request) : HostM (List Value × Value) := do
  modify fun frame => { frame with requests := frame.requests ++ [request] }
  let reply := host.invoker request
  match reply.result with
  | .ok value => return (reply.arguments, value)
  | .error e => throw (.invoke e)

/-- **Ask the host to act on a resolved member.** A static member needs no instance and is given
none; any other member needs one. -/
def invoke (resolution : Resolution) (action : Action) (target : Target) (values : List Value) :
    HostM (List Value × Value) := do
  let member := resolution.member
  let instance? := if member.isStatic then none else target.object?
  if !member.isStatic && instance?.isNone then
    throw (.invoke (.targetRequired member.name))
  host.ask { member, action, target := instance?, arguments := values }

/-! ### Values in and out -/

/-- The value of a parameter, from where the fit says it comes from. -/
def argumentValue (s : Store) (arguments : Arguments) (p : Parameter) : Source → Value
  | .positional index => (arguments.positional[index]?.map Argument.value).getD .null
  | .named name =>
    ((arguments.findNamed (host.comparison arguments) name).map Argument.value).getD .null
  | .default =>
    match p.default with
    | some (.constant value) => value
    | _ => s.defaultValue p.type

/-- **One value for each formal parameter.** -/
def argumentValues (s : Store) (resolution : Resolution) (arguments : Arguments) : List Value :=
  (resolution.member.parameters.zip resolution.fit.sources).map fun (p, source) =>
    host.argumentValue s arguments p source

/-- Hand one value back to the caller, if its parameter is passed by reference. -/
def writeBackOne (s : Store) (names : NameComparison) (arguments : Arguments)
    (entry : (Parameter × Source) × Value) : Arguments :=
  let ((p, source), value) := entry
  if p.isByRef s then
    match source with
    | .positional index => arguments.setPositional index value
    | .named name => arguments.setNamed names name value
    | .default => arguments
  else arguments

/-- **Hand back to the caller** what was written into parameters that are passed by reference. -/
def writeBack (s : Store) (resolution : Resolution) (values : List Value)
    (arguments : Arguments) : Arguments :=
  ((resolution.member.parameters.zip resolution.fit.sources).zip values).foldl
    (writeBackOne s (host.comparison arguments)) arguments

/-! ### Resolving for a target -/

/-- Through a type only static members are seen. -/
def inScope (target : Target) (query : Query) : Query :=
  match target with
  | .object _ => query
  | .type _ =>
    let access := host.resolver.options.effectiveAccess query.access
    { query with access := some (access.difference Access.instanceMembers) }

/-- Resolve a member for a target, with nothing where there is none. -/
def tryFind (target : Target) (query : Query) : HostM (Option Resolution) := do
  let t ← ofExcept target.type?
  ofResolve (host.resolver.tryResolve t (host.inScope target query))

/-- Resolve a member for a target. -/
def find (target : Target) (query : Query) : HostM Resolution := do
  let t ← ofExcept target.type?
  ofResolve (host.resolver.resolve t (host.inScope target query))

/-! ### Fields and properties -/

/-- Ask for the value of a resolved member. -/
def readResolved (resolution : Resolution) (target : Target) : HostM Value := do
  return (← host.invoke resolution .getValue target []).2

/-- Read a member. -/
def read (target : Target) (query : Query) : HostM Value := do
  host.readResolved (← host.find target query) target

/-- A resolved member takes an argument: null only where null may be stored. -/
def checkNull (s : Store) (member : Member) (a : Argument) : Except ResolveError Unit :=
  if a.type.isSome || member.valueType.any s.isNullAssignable then .ok ()
  else .error (.nullAssigned member.name)

/-- Write a member. -/
def write (target : Target) (query : Query) (a : Argument) : HostM Unit := do
  let query := match a.type with
    | some t => query.storing t
    | none => query
  let resolution ← host.find target query
  ofExcept (checkNull (← get).store resolution.member a)
  discard <| host.invoke resolution .setValue target [a.value]

/-- Read a field. -/
def getField (target : Target) (name : String) : HostM Value :=
  host.read target { kind := .field, name }

/-- Read a field, with nothing where there is none. -/
def tryGetField (target : Target) (name : String) : HostM (Option Value) := do
  match ← host.tryFind target { kind := .field, name } with
  | some resolution => return some (← host.readResolved resolution target)
  | none => return none

/-- Write a field. -/
def setField (target : Target) (name : String) (a : Argument) : HostM Unit :=
  host.write target { kind := .field, name } a

/-- Read a property. -/
def getProperty (target : Target) (name : String) : HostM Value :=
  host.read target { kind := .property, name }

/-- Write a property. -/
def setProperty (target : Target) (name : String) (a : Argument) : HostM Unit :=
  host.write target { kind := .property, name } a

/-! ### Methods and constructors -/

/-- Call a resolved member with the arguments of the caller, and hand back what it wrote. -/
def callWith (resolution : Resolution)
    (ask : List Value → HostM (List Value × Value)) : HostM Value := do
  let frame ← get
  let (values, result) ← ask (host.argumentValues frame.store resolution frame.arguments)
  modify fun frame =>
    { frame with arguments := host.writeBack frame.store resolution values frame.arguments }
  return result

/-- Call a resolved method. -/
def callResolved (resolution : Resolution) (target : Target) : HostM Value :=
  host.callWith resolution (host.invoke resolution .call target)

/-- The query for a method that is called with the arguments of the caller. -/
def methodQuery (name : String) (methodArguments : List TypeId := []) : HostM Query := do
  return { kind := .method, name, methodArguments, arguments := (← get).arguments }

/-- **Call a method.** -/
def callMethod (target : Target) (name : String) : HostM Value := do
  let resolution ← host.find target (← methodQuery name)
  host.callResolved resolution target

/-- Call a method, with nothing where no overload accepts the call. -/
def tryCallMethod (target : Target) (name : String) : HostM (Option Value) := do
  match ← host.tryFind target (← methodQuery name) with
  | some resolution => return some (← host.callResolved resolution target)
  | none => return none

/-- Call a generic method with given arguments for its generic parameters. -/
def callGenericMethod (target : Target) (name : String) (methodArguments : List TypeId) :
    HostM Value := do
  let resolution ← host.find target (← methodQuery name methodArguments)
  host.callResolved resolution target

/-- Call a method and wait for what it returns, where that has to be waited for. -/
def callMethodAwaited (awaiter : Awaiter) (target : Target) (name : String) : HostM Value := do
  let resolution ← host.find target (← methodQuery name)
  let value ← host.callResolved resolution target
  if resolution.member.valueType.any (awaiter.isAwaitable (← get).store) then
    ofExcept ((awaiter.await resolution.member value).mapError .invoke)
  else return value

/-- **Make an instance** of a type through a public constructor. -/
def construct (t : TypeId) : HostM Value := do
  let query : Query :=
    { Query.constructor with
      access := some (Access.publicMembers.union Access.instanceMembers)
      arguments := (← get).arguments }
  let resolution ← ofResolve (host.resolver.resolve t query)
  host.callWith resolution fun values =>
    host.ask { member := resolution.member, action := .construct, target := none,
               arguments := values }

/-! ### Events -/

/-- Add a handler to an event or take it away. -/
def handle (action : Action) (target : Target) (name : String) (handler : Argument) :
    HostM Unit := do
  match handler.type with
  | none => throw .nullHandler
  | some t =>
    let resolution ← host.find target (({ kind := .event, name } : Query).storing t)
    discard <| host.invoke resolution action target [handler.value]

/-- Add a handler to an event. -/
def addEventHandler (target : Target) (name : String) (handler : Argument) : HostM Unit :=
  host.handle .addHandler target name handler

/-- Take a handler away from an event. -/
def removeEventHandler (target : Target) (name : String) (handler : Argument) : HostM Unit :=
  host.handle .removeHandler target name handler

end Host

end CallSite
