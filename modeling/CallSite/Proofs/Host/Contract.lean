import CallSite.Proofs.Host.WriteBack
import CallSite.Proofs.Resolve.Addressed
import CallSite.Type.Initial

/-!
# The contract of a call

A call finds a member, passes one value for each of its parameters, and hands back what the member
wrote (`CallSite.Host.calls_keep_contract`). The sources of the values were found by the resolver,
for a candidate whose types may since have been replaced. They are still right when the values are
read and when they are handed back, for the names of the arguments are compared as the resolver
compared them and nothing in between touches a name.
-/

namespace CallSite

/-! ### What is passed -/

/-- **The value that is passed for a parameter**: that of the positional argument at its index, or
else that of the argument which its name finds, or else its default. An empty name finds nothing. -/
def Arguments.valueFor (arguments : Arguments) (names : NameComparison) (s : Store)
    (entry : Parameter × Nat) : Value :=
  match arguments.positional[entry.2]?.or (entry.1.givenName.bind (arguments.findNamed names)) with
  | some a => a.value
  | none =>
    match entry.1.default with
    | some (.constant value) => value
    | _ => s.defaultValue entry.1.type

/-- What goes to a parameter is the positional argument at its index, or what its name finds. -/
theorem Arguments.given?_eq (arguments : Arguments) (names : NameComparison) (p : Parameter)
    (k : Nat) : arguments.given? names (p, k) =
      arguments.positional[k]?.or (p.givenName.bind (arguments.findNamed names)) := by
  unfold given? supplied?
  dsimp only
  cases arguments.positional[k]? with
  | some a => rfl
  | none =>
    cases p.givenName with
    | none => rfl
    | some name =>
      dsimp only [Option.bind_some, Option.none_or]
      rw [Option.map_map]
      exact Option.map_id'

namespace Host

variable (host : Host) {arguments : Arguments}

/-- The value is read where the source says. -/
theorem argumentValue_eq {s : Store} {p : Parameter} {k : Nat} {source : Source}
    (hsource : arguments.source? (host.comparison arguments) (p, k) = some source) :
    host.argumentValue s arguments p source =
      arguments.valueFor (host.comparison arguments) s (p, k) := by
  rw [Arguments.valueFor, ← Arguments.given?_eq]
  unfold Arguments.source? at hsource
  unfold Arguments.given?
  dsimp only at hsource ⊢
  cases hsupplied : supplied? (host.comparison arguments) arguments k p with
  | none =>
    rw [hsupplied] at hsource
    dsimp only [Option.map_none] at hsource ⊢
    split at hsource
    · cases hsource
      rfl
    · cases hsource
  | some given =>
    obtain ⟨a, given⟩ := given
    -- The source was made where the argument was found, so reading it finds the argument again.
    rw [hsupplied] at hsource
    obtain rfl := Option.some.inj hsource
    dsimp only [Option.map_some]
    unfold supplied? at hsupplied
    split at hsupplied
    case h_1 a' ha' =>
      obtain ⟨rfl, rfl⟩ := Prod.mk.inj (Option.some.inj hsupplied)
      rw [argumentValue, ha']
      rfl
    case h_2 =>
      obtain ⟨name, -, hfound⟩ := Option.bind_eq_some_iff.mp hsupplied
      obtain ⟨a', ha', heq⟩ := Option.map_eq_some_iff.mp hfound
      obtain ⟨rfl, rfl⟩ := Prod.mk.inj heq
      rw [argumentValue, ha']
      rfl

/-- **One value for each parameter**, in order. -/
theorem argumentValues_eq {s : Store} {answer : Resolution}
    (h : arguments.Addresses (host.comparison arguments) answer.member.parameters
      answer.fit.sources) :
    host.argumentValues s answer arguments =
      answer.member.parameters.zipIdx.map (arguments.valueFor (host.comparison arguments) s) := by
  refine List.ext_getElem? fun k => ?_
  rw [argumentValues, List.getElem?_map, List.getElem?_map, List.getElem?_zipIdx, Nat.zero_add]
  cases hp : answer.member.parameters[k]? with
  | none =>
    rw [List.getElem?_eq_none]
    · rfl
    · rw [List.length_zip]
      exact Nat.le_trans (Nat.min_le_left _ _) (List.getElem?_eq_none_iff.mp hp)
  | some p =>
    have hsource := h.getElem? hp
    have hk : k < answer.fit.sources.length := by
      rw [h.length_eq]
      exact (List.getElem?_eq_some_iff.mp hp).1
    rw [List.getElem?_eq_getElem hk] at hsource
    have hpair : (answer.member.parameters.zip answer.fit.sources)[k]? =
        some (p, answer.fit.sources[k]) :=
      List.getElem?_zip_eq_some.mpr ⟨hp, List.getElem?_eq_getElem hk⟩
    rw [hpair, Option.map_some, Option.map_some, Option.map_some]
    exact congrArg some (host.argumentValue_eq hsource.symm)

end Host

/-! ### Running -/

/-- What is kept at the end of a run. -/
def frameOf {α : Type} : EStateM.Result ResolveError Frame α → Frame
  | .ok _ frame => frame
  | .error _ frame => frame

/-- Nothing was asked and no argument was touched. -/
def Frame.Untouched (frame frame' : Frame) : Prop :=
  frame'.arguments = frame.arguments ∧ frame'.requests = frame.requests

theorem host_bind_apply {α β : Type} (x : HostM α) (f : α → HostM β) (frame : Frame) :
    (x >>= f) frame =
      match x frame with
      | .ok a frame' => f a frame'
      | .error e frame' => .error e frame' := by
  change EStateM.bind x f frame = _
  unfold EStateM.bind
  cases x frame <;> rfl

namespace Host

variable (host : Host)

theorem ask_apply (request : Request) (frame : Frame) :
    host.ask request frame =
      match (host.invoker request).result with
      | .ok value => .ok ((host.invoker request).arguments, value)
          { frame with requests := frame.requests ++ [request] }
      | .error e => .error (.invoke e) { frame with requests := frame.requests ++ [request] } := by
  unfold ask
  rw [host_bind_apply]
  change (match (host.invoker request).result with
    | .ok value => pure ((host.invoker request).arguments, value)
    | .error e => throw (.invoke e) : HostM (List Value × Value))
      { frame with requests := frame.requests ++ [request] } = _
  cases (host.invoker request).result <;> rfl

/-- **What the host is asked** about a member that was found: to act on it, with one value for each
of its parameters. -/
def requestFor (frame : Frame) (s : Store) (answer : Resolution) (action : Action)
    (object? : Option Value) : Request :=
  { member := answer.member
    action
    target := if answer.member.isStatic then none else object?
    arguments := answer.member.parameters.zipIdx.map
      (frame.arguments.valueFor (host.comparison frame.arguments) s) }

/-- A member can be acted on: it is static, it makes an instance, or there is an instance. -/
def CanAsk (answer : Resolution) (action : Action) (object? : Option Value) : Prop :=
  action = .construct ∨ answer.member.isStatic ∨ object?.isSome

/-- **The contract of a call** that finds a member and asks the host to act on it. -/
structure Contract {α : Type} (find : HostM (Option Resolution)) (action : Action)
    (object? : Option Value) (run : HostM α) : Prop where
  /-- Where no member is found, nothing happens. -/
  unresolved : ∀ frame frame₁ : Frame,
    (find frame = .ok none frame₁ ∨ ∃ e, find frame = .error e frame₁) →
      frame.Untouched (frameOf (run frame))
  /-- Where a member needs an instance and there is none, nothing happens. -/
  refused : ∀ (frame frame₁ : Frame) (answer : Resolution), find frame = .ok (some answer) frame₁ →
    ¬ CanAsk answer action object? → frame.Untouched (frameOf (run frame))
  /-- Else the host is asked, once. -/
  asked : ∀ frame frame₁ answer, find frame = .ok (some answer) frame₁ →
    CanAsk answer action object? → (frameOf (run frame)).requests =
      frame.requests ++ [host.requestFor frame frame₁.store answer action object?]
  /-- Each parameter has a source, and each source but the default is that of an argument. -/
  supplied : ∀ frame frame₁ answer, find frame = .ok (some answer) frame₁ →
    answer.fit.sources.length = answer.member.parameters.length ∧
    ∀ source ∈ answer.fit.sources, source ≠ .default → ∃ place ∈ frame.arguments.places,
      frame.arguments.place? (host.comparison frame.arguments) source = some place
  /-- Where the host fails, the arguments stay. -/
  failed : ∀ frame frame₁ answer e, find frame = .ok (some answer) frame₁ →
    CanAsk answer action object? →
    (host.invoker (host.requestFor frame frame₁.store answer action object?)).result = .error e →
    (frameOf (run frame)).arguments = frame.arguments
  /-- Where it succeeds, what was written is handed back. -/
  succeeded : ∀ frame frame₁ answer value, find frame = .ok (some answer) frame₁ →
    CanAsk answer action object? →
    (host.invoker (host.requestFor frame frame₁.store answer action object?)).result = .ok value →
    frame.arguments.WrittenBack (frameOf (run frame)).arguments frame₁.store
      (host.comparison frame.arguments) answer
      (host.invoker (host.requestFor frame frame₁.store answer action object?)).arguments

/-- What a run ends with, if it passes the values of the arguments to `ask` and hands back what was
written. -/
theorem frameOf_callWith (answer : Resolution) (ask : List Value → HostM (List Value × Value))
    (frame : Frame) :
    frameOf (host.callWith answer ask frame) =
      match ask (host.argumentValues frame.store answer frame.arguments) frame with
      | .ok (values, _) frame' =>
        { frame' with arguments := host.writeBack frame'.store answer values frame'.arguments }
      | .error _ frame' => frame' := by
  unfold callWith
  rw [host_bind_apply]
  change frameOf ((ask (host.argumentValues frame.store answer frame.arguments) >>= _) frame) = _
  rw [host_bind_apply]
  cases ask (host.argumentValues frame.store answer frame.arguments) frame <;> rfl

/-- **A run that acts on what it finds**: it finds a member without touching anything, and then asks
the host about it, if it can be acted on. -/
structure Acts {α : Type} (find : HostM (Option Resolution)) (action : Action)
    (object? : Option Value) (ask : Resolution → List Value → HostM (List Value × Value))
    (run : HostM α) : Prop where
  /-- To find a member touches nothing. -/
  untouched : ∀ frame : Frame, frame.Untouched (frameOf (find frame))
  /-- The call addresses what is found. -/
  addresses : ∀ frame answer frame₁, find frame = .ok (some answer) frame₁ →
    frame.arguments.Addresses (host.comparison frame.arguments) answer.member.parameters
      answer.fit.sources
  /-- The run is that of the call. -/
  run_eq : ∀ frame, frameOf (run frame) =
    match find frame with
    | .ok (some answer) frame₁ => frameOf (host.callWith answer (ask answer) frame₁)
    | .ok none frame₁ => frame₁
    | .error _ frame₁ => frame₁
  /-- The host is asked where the member can be acted on. -/
  asks : ∀ answer values, CanAsk answer action object? → ask answer values =
    host.ask { member := answer.member, action, arguments := values,
               target := if answer.member.isStatic then none else object? }
  /-- Where it cannot, nothing is asked. -/
  refuses : ∀ answer values frame, ¬ CanAsk answer action object? →
    ∃ e, ask answer values frame = .error e frame

namespace Acts

variable {host} {α : Type} {find : HostM (Option Resolution)} {action : Action}
  {object? : Option Value} {ask : Resolution → List Value → HostM (List Value × Value)}
  {run : HostM α}

section Found

variable (h : host.Acts find action object? ask run) {frame frame₁ : Frame} {answer : Resolution}
  (hfound : find frame = .ok (some answer) frame₁)

include h hfound

/-- When a member is found, everything that the call is about is as it was. -/
theorem untouched_of_found : frame.Untouched frame₁ := by
  have huntouched := h.untouched frame
  rwa [hfound] at huntouched

/-- What is passed is one value for each parameter. -/
theorem argumentValues_of_found : host.argumentValues frame₁.store answer frame₁.arguments =
    (host.requestFor frame frame₁.store answer action object?).arguments := by
  rw [(h.untouched_of_found hfound).1]
  exact host.argumentValues_eq (h.addresses frame answer frame₁ hfound)

/-- Where the host cannot be asked, the run ends with what was found. -/
theorem frameOf_refused (hcannot : ¬ CanAsk answer action object?) :
    frameOf (run frame) = frame₁ := by
  obtain ⟨e, he⟩ := h.refuses answer
    (host.argumentValues frame₁.store answer frame₁.arguments) frame₁ hcannot
  rw [h.run_eq, hfound]
  dsimp only
  rw [frameOf_callWith, he]

/-- **Where the host is asked**, what the run ends with is read off its answer. -/
theorem frameOf_asked (hcan : CanAsk answer action object?) : frameOf (run frame) =
    match (host.invoker (host.requestFor frame frame₁.store answer action object?)).result with
    | .ok _ => { frame₁ with
        requests := frame.requests ++ [host.requestFor frame frame₁.store answer action object?]
        arguments := host.writeBack frame₁.store answer
          (host.invoker (host.requestFor frame frame₁.store answer action object?)).arguments
          frame.arguments }
    | .error _ => { frame₁ with
        requests := frame.requests ++
          [host.requestFor frame frame₁.store answer action object?] } := by
  obtain ⟨harguments, hrequests⟩ := h.untouched_of_found hfound
  have hasked : ask answer (host.requestFor frame frame₁.store answer action object?).arguments =
      host.ask (host.requestFor frame frame₁.store answer action object?) := h.asks answer _ hcan
  rw [h.run_eq, hfound]
  dsimp only
  rw [frameOf_callWith, h.argumentValues_of_found hfound, hasked, ask_apply, hrequests]
  cases (host.invoker (host.requestFor frame frame₁.store answer action object?)).result with
  | ok value =>
    dsimp only
    rw [harguments]
  | error e => rfl

end Found

/-- **A run that acts on what it finds keeps the contract**, if the host hands back as many values
as it is handed. -/
theorem contract (h : host.Acts find action object? ask run)
    (hlength : ∀ request, (host.invoker request).arguments.length = request.arguments.length) :
    host.Contract find action object? run where
  unresolved frame frame₁ hnone := by
    have huntouched := h.untouched frame
    rw [h.run_eq]
    obtain hnone | ⟨e, hnone⟩ := hnone <;> rw [hnone] at huntouched ⊢ <;> exact huntouched
  refused frame frame₁ answer hfound hcannot := by
    rw [h.frameOf_refused hfound hcannot]
    exact h.untouched_of_found hfound
  asked frame frame₁ answer hfound hcan := by
    rw [h.frameOf_asked hfound hcan]
    cases (host.invoker (host.requestFor frame frame₁.store answer action object?)).result <;> rfl
  supplied frame frame₁ answer hfound := by
    have haddresses := h.addresses frame answer frame₁ hfound
    refine ⟨haddresses.length_eq, fun source hsource hdefault => ?_⟩
    obtain ⟨place, hplace⟩ := haddresses.exists_place hsource hdefault
    exact ⟨place, haddresses.mem_places_of_mem hsource hplace, hplace⟩
  failed frame frame₁ answer e hfound hcan hresult := by
    rw [h.frameOf_asked hfound hcan, hresult]
    exact (h.untouched_of_found hfound).1
  succeeded frame frame₁ answer value hfound hcan hresult := by
    rw [h.frameOf_asked hfound hcan, hresult]
    refine host.writtenBack (h.addresses frame answer frame₁ hfound) ?_
    rw [hlength, requestFor, List.length_map, List.length_zipIdx]

end Acts

/-! ### Finding a member -/

variable {host} in
theorem ofResolve_cases {α : Type} {x : ResolveM α} {frame frame₁ : Frame} {a : α}
    (h : ofResolve x frame = .ok a frame₁) : ∃ s, x frame.store = .ok a s := by
  unfold ofResolve at h
  cases hx : x frame.store with
  | ok a' s =>
    rw [hx] at h
    obtain rfl := (EStateM.Result.ok.inj h).1
    exact ⟨s, rfl⟩
  | error e s =>
    rw [hx] at h
    cases h

theorem untouched_ofResolve {α : Type} (x : ResolveM α) (frame : Frame) :
    frame.Untouched (frameOf (ofResolve x frame)) := by
  unfold ofResolve
  cases x frame.store <;> exact ⟨rfl, rfl⟩

theorem inScope_arguments (target : Target) (query : Query) :
    (host.inScope target query).arguments = query.arguments := by
  cases target <;> rfl

theorem tryFind_apply (target : Target) (query : Query) (frame : Frame) :
    host.tryFind target query frame =
      match target.type? with
      | .ok t => ofResolve (host.resolver.tryResolve t (host.inScope target query)) frame
      | .error e => .error e frame := by
  unfold tryFind
  rw [host_bind_apply]
  cases target.type? <;> rfl

theorem find_apply (target : Target) (query : Query) (frame : Frame) :
    host.find target query frame =
      match target.type? with
      | .ok t => ofResolve (host.resolver.resolve t (host.inScope target query)) frame
      | .error e => .error e frame := by
  unfold find
  rw [host_bind_apply]
  cases target.type? <;> rfl

theorem untouched_tryFind (target : Target) (query : Query) (frame : Frame) :
    frame.Untouched (frameOf (host.tryFind target query frame)) := by
  rw [tryFind_apply]
  cases target.type? with
  | ok t => exact untouched_ofResolve _ _
  | error e => exact ⟨rfl, rfl⟩

theorem untouched_find (target : Target) (query : Query) (frame : Frame) :
    frame.Untouched (frameOf (host.find target query frame)) := by
  rw [find_apply]
  cases target.type? with
  | ok t => exact untouched_ofResolve _ _
  | error e => exact ⟨rfl, rfl⟩

end Host

/-- An answer is one with or without an error in place of nothing. -/
theorem Resolver.tryResolve_of_resolve {resolver : Resolver} {t : TypeId} {query : Query}
    {s s' : Store} {answer : Resolution} (h : resolver.resolve t query s = .ok answer s') :
    resolver.tryResolve t query s = .ok (some answer) s' := by
  obtain ⟨found, s₁, hfound, h⟩ := exists_of_bind_eq_ok h
  cases found with
  | none => cases h
  | some found =>
    obtain ⟨rfl, rfl⟩ := of_pure_eq_ok h
    exact hfound

namespace Host

variable (host : Host) {target : Target} {query : Query} {frame frame₁ : Frame}
  {answer : Resolution}

theorem addresses_of_tryFind (h : host.tryFind target query frame = .ok (some answer) frame₁) :
    query.arguments.Addresses (host.comparison query.arguments) answer.member.parameters
      answer.fit.sources := by
  rw [tryFind_apply] at h
  cases ht : target.type? with
  | error e =>
    rw [ht] at h
    cases h
  | ok t =>
    rw [ht] at h
    obtain ⟨s, h⟩ := ofResolve_cases h
    have haddresses := Resolver.addresses_of_tryResolve h
    rwa [inScope_arguments] at haddresses

theorem addresses_of_find (h : host.find target query frame = .ok answer frame₁) :
    query.arguments.Addresses (host.comparison query.arguments) answer.member.parameters
      answer.fit.sources := by
  rw [find_apply] at h
  cases ht : target.type? with
  | error e =>
    rw [ht] at h
    cases h
  | ok t =>
    rw [ht] at h
    obtain ⟨s, h⟩ := ofResolve_cases h
    have haddresses := Resolver.addresses_of_tryResolve (Resolver.tryResolve_of_resolve h)
    rwa [inScope_arguments] at haddresses

/-! ### The operations -/

/-- Find the method that is called with the arguments of the caller. -/
def findMethod (target : Target) (name : String) (methodArguments : List TypeId := []) :
    HostM Resolution := do
  host.find target (← methodQuery name methodArguments)

/-- Find the method, or nothing where no overload accepts the call. -/
def tryFindMethod (target : Target) (name : String) : HostM (Option Resolution) := do
  host.tryFind target (← methodQuery name)

/-- Find the public constructor that is called with the arguments of the caller. -/
def findConstructor (t : TypeId) : HostM Resolution := do
  let query : Query :=
    { Query.constructor with
      access := some (Access.publicMembers.union Access.instanceMembers)
      arguments := (← get).arguments }
  ofResolve (host.resolver.resolve t query)

/-- What happens after a call touches nothing. -/
theorem frameOf_bind {α β : Type} (x : HostM α) {f : α → HostM β}
    (hf : ∀ a frame, frameOf (f a frame) = frame) (frame : Frame) :
    frameOf ((x >>= f) frame) = frameOf (x frame) := by
  rw [host_bind_apply]
  cases x frame with
  | ok a frame' => exact hf a frame'
  | error e frame' => rfl

/-- A member that can be acted on is acted on: the host is asked. -/
theorem invoke_of_canAsk {action : Action} (haction : action ≠ .construct) {values : List Value}
    (h : CanAsk answer action target.object?) :
    host.invoke answer action target values =
      host.ask { member := answer.member, action, arguments := values,
                 target := if answer.member.isStatic then none else target.object? } := by
  unfold invoke
  dsimp only
  rw [if_neg]
  obtain h | h | h := h
  · exact absurd h haction
  · rw [h]
    exact Bool.false_ne_true
  · cases hstatic : answer.member.isStatic with
    | true => exact Bool.false_ne_true
    | false =>
      rw [if_neg Bool.false_ne_true, ← Option.not_isSome, h]
      exact Bool.false_ne_true

theorem exists_invoke_eq_error {action : Action} {values : List Value}
    (h : ¬ CanAsk answer action target.object?) (frame : Frame) :
    ∃ e, host.invoke answer action target values frame = .error e frame := by
  unfold CanAsk at h
  rw [not_or, not_or, Bool.not_eq_true, Bool.not_eq_true, Option.isSome_eq_false_iff] at h
  obtain ⟨-, hstatic, hnone⟩ := h
  refine ⟨.invoke (.targetRequired answer.member.name), ?_⟩
  unfold invoke
  dsimp only
  rw [hstatic, if_neg Bool.false_ne_true, hnone]
  rfl

/-- A search that fails throws, so what it finds is never missing. -/
theorem some_find_apply (find : HostM Resolution) (frame : Frame) :
    (do return some (← find) : HostM (Option Resolution)) frame =
      match find frame with
      | .ok answer frame₁ => .ok (some answer) frame₁
      | .error e frame₁ => .error e frame₁ := by
  rw [host_bind_apply]
  cases find frame <;> rfl

/-- **A run that has to find its member** acts on what it finds. -/
theorem acts_of_find {α : Type} {find : HostM Resolution} {action : Action}
    {object? : Option Value} {run : HostM α} {after : Resolution → HostM α}
    {ask : Resolution → List Value → HostM (List Value × Value)}
    (hfind : ∀ frame : Frame, frame.Untouched (frameOf (find frame)))
    (haddresses : ∀ frame answer frame₁, find frame = .ok answer frame₁ →
      frame.arguments.Addresses (host.comparison frame.arguments) answer.member.parameters
        answer.fit.sources)
    (hrun : ∀ frame, run frame = (find >>= after) frame)
    (hafter : ∀ answer frame, frameOf (after answer frame) =
      frameOf (host.callWith answer (ask answer) frame))
    (hask : ∀ answer values, CanAsk answer action object? → ask answer values =
      host.ask { member := answer.member, action, arguments := values,
                 target := if answer.member.isStatic then none else object? })
    (hrefuse : ∀ answer values frame, ¬ CanAsk answer action object? →
      ∃ e, ask answer values frame = .error e frame) :
    host.Acts (do return some (← find)) action object? ask run := by
  refine ⟨fun frame => ?_, fun frame answer frame₁ h => ?_, fun frame => ?_, hask, hrefuse⟩
  · have hkeep := hfind frame
    rw [some_find_apply]
    cases hfound : find frame <;> rw [hfound] at hkeep <;> exact hkeep
  · rw [some_find_apply] at h
    cases hfound : find frame with
    | ok found frame₂ =>
      rw [hfound] at h
      cases h
      exact haddresses frame _ _ hfound
    | error e frame₂ =>
      rw [hfound] at h
      cases h
  · rw [some_find_apply, hrun, host_bind_apply]
    cases find frame with
    | ok answer frame₁ => exact hafter answer frame₁
    | error e frame₁ => rfl

section Contract

variable (hlength : ∀ request, (host.invoker request).arguments.length = request.arguments.length)

include hlength

/-- A method that is called, with what follows touching nothing. -/
theorem contract_findMethod {α : Type} (target : Target) (name : String)
    (methodArguments : List TypeId) {run : HostM α} {after : Resolution → HostM α}
    (hrun : ∀ frame, run frame = (host.findMethod target name methodArguments >>= after) frame)
    (hafter : ∀ answer frame, frameOf (after answer frame) =
      frameOf (host.callResolved answer target frame)) :
    host.Contract (do return some (← host.findMethod target name methodArguments)) .call
      target.object? run :=
  (host.acts_of_find (fun frame => host.untouched_find _ _ frame)
    (fun _ _ _ h => host.addresses_of_find h) hrun hafter
    (fun _ _ => host.invoke_of_canAsk (by decide))
    fun _ _ frame hcannot => host.exists_invoke_eq_error hcannot frame).contract hlength

theorem contract_tryCallMethod (target : Target) (name : String) :
    host.Contract (host.tryFindMethod target name) .call target.object?
      (host.tryCallMethod target name) := by
  have hacts : host.Acts (host.tryFindMethod target name) .call target.object?
      (fun answer values => host.invoke answer .call target values)
      (host.tryCallMethod target name) := by
    refine ⟨fun frame => host.untouched_tryFind _ _ frame,
      fun _ _ _ h => host.addresses_of_tryFind h,
      fun frame => ?_, fun _ _ => host.invoke_of_canAsk (by decide),
      fun _ _ frame hcannot => host.exists_invoke_eq_error hcannot frame⟩
    refine (congrArg frameOf (host_bind_apply (host.tryFindMethod target name) _ frame)).trans ?_
    cases host.tryFindMethod target name frame with
    | error e frame₁ => rfl
    | ok found frame₁ =>
      cases found with
      | none => rfl
      | some answer => exact frameOf_bind _ (fun _ _ => rfl) frame₁
  exact hacts.contract hlength

theorem contract_construct (t : TypeId) :
    host.Contract (do return some (← host.findConstructor t)) .construct none
      (host.construct t) := by
  refine (host.acts_of_find (fun frame => untouched_ofResolve _ frame)
    (fun frame answer frame₁ h => ?_) (fun _ => rfl) (fun _ _ => rfl) (fun answer values _ => ?_)
    fun _ _ _ hcannot => absurd (.inl rfl) hcannot).contract hlength
  · obtain ⟨s, h⟩ := ofResolve_cases h
    exact Resolver.addresses_of_tryResolve (Resolver.tryResolve_of_resolve h)
  · rw [ite_self]

end Contract

/-- **Calls keep their contract**, whatever the host does with the values that it is handed, as long
as it hands back as many. -/
theorem calls_keep_contract (host : Host)
    (hlength : ∀ request, (host.invoker request).arguments.length = request.arguments.length) :
    (∀ target name, host.Contract (do return some (← host.findMethod target name)) .call
      target.object? (host.callMethod target name)) ∧
    (∀ target name, host.Contract (host.tryFindMethod target name) .call target.object?
      (host.tryCallMethod target name)) ∧
    (∀ target name methodArguments,
      host.Contract (do return some (← host.findMethod target name methodArguments)) .call
        target.object? (host.callGenericMethod target name methodArguments)) ∧
    (∀ awaiter target name, host.Contract (do return some (← host.findMethod target name)) .call
      target.object? (host.callMethodAwaited awaiter target name)) ∧
    ∀ t, host.Contract (do return some (← host.findConstructor t)) .construct none
      (host.construct t) := by
  refine ⟨fun target name => ?_, fun target name => host.contract_tryCallMethod hlength target name,
    fun target name methodArguments => ?_, fun awaiter target name => ?_,
    fun t => host.contract_construct hlength t⟩
  · exact host.contract_findMethod hlength target name [] (fun _ => rfl) fun _ _ => rfl
  · exact host.contract_findMethod hlength target name methodArguments (fun _ => rfl) fun _ _ => rfl
  -- What is awaited comes after the values were handed back.
  · refine host.contract_findMethod hlength target name [] (fun _ => rfl) fun answer frame => ?_
    refine frameOf_bind _ (fun value frame => ?_) frame
    rw [host_bind_apply]
    change frameOf ((if _ then _ else _ : HostM Value) frame) = frame
    split
    · cases (awaiter.await answer.member value).mapError ResolveError.invoke <;> rfl
    · rfl

end Host

/-- A host that exchanges the first two of the values that it is handed. -/
def exchangingHost (parameters : List Parameter) : Host :=
  { resolver := { registry := { members := #[Member.method "Put" Core.object parameters Core.void] }
                  depth := 30 }
    invoker := fun request =>
      { arguments := match request.arguments with
          | a :: b :: rest => b :: a :: rest
          | few => few
        result := .ok .null } }

theorem length_exchanged (parameters : List Parameter) (request : Request) :
    ((exchangingHost parameters).invoker request).arguments.length = request.arguments.length := by
  unfold exchangingHost
  dsimp only
  split <;> simp_all

/-- Two arguments, of which the second is given by name, are exchanged through references. The last
parameter is left to its default. -/
theorem calls_keep_contract_exchanged :
    let host := exchangingHost [⟨0, "left", ⟨27⟩, none, false⟩, ⟨1, "right", ⟨27⟩, none, false⟩,
      ⟨2, "step", Core.int32, some (.constant (.int32 1)), false⟩]
    let target : Target := .object (.object Core.object 0)
    let before : Frame :=
      { store := (Operation.byRef Core.int32).after Store.initial
        arguments :=
          { positional := [.ofValue (.int32 3)], named := [("right", .ofValue (.int32 4))] } }
    let behind := frameOf (host.callMethod target "Put" before)
    host.Contract (do return some (← host.findMethod target "Put")) .call target.object?
      (host.callMethod target "Put") ∧
    behind.requests.map Request.arguments = [[.int32 3, .int32 4, .int32 1]] ∧
    behind.arguments =
      { positional := [.ofValue (.int32 4)], named := [("right", .ofValue (.int32 3))] } := by
  intro host target before behind
  exact ⟨(Host.calls_keep_contract host (length_exchanged _)).1 target "Put", by decide +kernel,
    by decide +kernel⟩

/-- **An empty name passes nothing**: the argument has the name of the parameter, and what is passed
is the default. -/
theorem empty_name_passes_default :
    let p : Parameter := ⟨0, some "", Core.int32, some (.constant (.int32 1)), false⟩
    let host := exchangingHost [p]
    let before : Frame :=
      { store := Store.initial, arguments := { named := [("", .ofValue (.int32 5))] } }
    host.comparison before.arguments = .caseSensitive ∧ p.isNamed .caseSensitive "" ∧
    (frameOf (host.callMethod (.object (.object Core.object 0)) "Put" before)).requests.map
      Request.arguments = [[.int32 1]] := by
  decide +kernel

end CallSite
