import CallSite.Member.Basic
import CallSite.Type.Error

/-!
# What can go wrong with a call

Each way to fail is a constructor that carries the parts its sentence needs:
`CallSite.InvokeError` for the host that carries out the call, `CallSite.OptionsError` for the
options of a resolver, and `CallSite.ResolveError` for all that may fail on the way to the result.
-/

namespace CallSite

/-- Why the host could not do what it was asked. -/
inductive InvokeError
  /-- A member of an instance was asked for without one. -/
  | targetRequired (member : String)
  /-- The member failed. -/
  | failed (member message : String)
  /-- What the member returned could not be waited for. -/
  | awaitFailed (member message : String)
deriving DecidableEq, Repr

/-- The sentence that reports the error. -/
def InvokeError.message : InvokeError → String
  | .targetRequired member => "Instance member '" ++ member ++ "' requires a target"
  | .failed member message => "Invocation of '" ++ member ++ "' failed: " ++ message
  | .awaitFailed member message => "Awaited result of '" ++ member ++ "' failed: " ++ message

/-- Why the options of a resolver cannot be used. -/
inductive OptionsError
  /-- The file that holds them cannot be read as text. -/
  | unreadable
  /-- The text is no configuration. -/
  | malformed
  /-- The default mask, written out, lets no visibility through. -/
  | noVisibility (access : String)
  /-- The default mask, written out, lets neither static nor instance members through. -/
  | noScope (access : String)
deriving DecidableEq, Repr

/-- The sentence that reports the error. -/
def OptionsError.message : OptionsError → String
  | .unreadable => "Failed to read configuration file"
  | .malformed => "Failed to parse configuration"
  | .noVisibility access =>
    "Invalid configuration: default-access " ++ access ++
      " admits neither public nor non-public members"
  | .noScope access =>
    "Invalid configuration: default-access " ++ access ++
      " admits neither instance nor static members"

/-- **Why a member is not found or not called.** -/
inductive ResolveError
  /-- No member accepts the call. -/
  | notFound (kind : MemberKind) (member queried : String)
  /-- More than one member accepts the call, and `candidates` of them rank first together. -/
  | ambiguous (kind : MemberKind) (member queried : String) (candidates : Nat)
  /-- The name that is looked for is blank. -/
  | blankName
  /-- The instance whose member is asked for is null. -/
  | nullTarget
  /-- The handler of an event is null. -/
  | nullHandler
  /-- Null is assigned to a member that does not take it. -/
  | nullAssigned (member : String)
  /-- A type cannot be made. -/
  | type (error : TypeError)
  /-- The host failed. -/
  | invoke (error : InvokeError)
deriving DecidableEq, Repr

/-- The sentence that reports the error. -/
def ResolveError.message : ResolveError → String
  | .notFound kind member queried =>
    "No " ++ kind.text ++ " '" ++ member ++ "' matching the arguments was found on " ++ queried
  | .ambiguous kind member queried candidates =>
    "Ambiguous match for " ++ kind.text ++ " '" ++ member ++ "' on " ++ queried ++ ": " ++
      toString candidates ++ " candidates rank equally"
  | .blankName => "Invalid argument: member name cannot be blank"
  | .nullTarget => "Invalid argument: target instance cannot be null"
  | .nullHandler => "Invalid argument: event handler cannot be null"
  | .nullAssigned member => "Invalid argument: '" ++ member ++ "' cannot be assigned null"
  | .type error => error.message
  | .invoke error => error.message

end CallSite
