import CallSite.Resolve.Error

/-!
# Options of a resolver

What a resolver does where a query leaves it open.

* `Options.effectiveAccess` – the mask that a query is answered under.
* `Options.validate` – refuse options under which no member could ever be found.
-/

namespace CallSite

/-- **What a resolver does** where a query leaves it open. -/
structure Options where
  /-- The mask of queries without one of their own. -/
  defaultAccess : Access := Access.usual
  /-- Compare the names of members without regard to letter case. -/
  ignoreCase : Bool := false
  /-- How names of arguments are compared in calls that do not say so. -/
  namedArguments : NameComparison := .caseSensitive
  /-- Of members that rank equally take the one nearest to the queried type. -/
  topHierarchy : Bool := false
deriving DecidableEq, Repr

namespace Options

/-- **The mask that a query is answered under.** -/
def effectiveAccess (options : Options) (requested : Option Access) : Access :=
  ((requested.getD options.defaultAccess).unionIf options.ignoreCase Access.ignoreCase).unionIf
    options.topHierarchy Access.topHierarchy

/-- How the names of arguments are compared in a call. -/
def comparison (options : Options) (arguments : Arguments) : NameComparison :=
  arguments.comparison.getD options.namedArguments

/-- Refuse options under which no member could ever be found. -/
def validate (options : Options) : Except OptionsError Unit :=
  let access := options.defaultAccess
  if !access.contains Access.publicMembers && !access.contains Access.nonPublicMembers then
    .error (.noVisibility access.text)
  else if !access.contains Access.instanceMembers && !access.contains Access.staticMembers then
    .error (.noScope access.text)
  else .ok ()

end Options

end CallSite
