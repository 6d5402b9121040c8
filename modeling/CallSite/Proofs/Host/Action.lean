import CallSite.Proofs.Host.Contract
import CallSite.Proofs.Resolve.Supply

/-!
# Actions that are no calls

To read or write a member, or to hand a handler to an event, is to find the member and to ask the
host about it, once. No argument goes to a parameter on the way, so what is found has a default for
each of its parameters – it may well be an indexed property.

The host is to be handed one value for each parameter, and what is stored behind these
(`CallSite.Host.promised`). It is handed what is stored and nothing else, and that is what was
promised exactly where the member has no parameters (`CallSite.Host.actions_keep_contract_iff`).
-/

namespace CallSite

namespace Host

variable (host : Host)

/-! ### What is promised and what is handed over -/

/-- **What the host is to be asked** by an action that is no call: one value for each parameter, as
in a call without arguments, and behind them what is stored. -/
def promised (frame : Frame) (answer : Resolution) (action : Action) (object? : Option Value)
    (stored : List Value) : Request :=
  let request := host.requestFor { frame with arguments := {} } frame.store answer action object?
  { request with arguments := request.arguments ++ stored }

/-- The request that holds what is stored and nothing else. -/
def bareRequest (answer : Resolution) (action : Action) (object? : Option Value)
    (stored : List Value) : Request :=
  { member := answer.member
    action
    target := if answer.member.isStatic then none else object?
    arguments := stored }

/-- Nothing is missing from what is stored exactly where there are no parameters. -/
theorem bareRequest_eq_promised_iff {frame : Frame} {answer : Resolution} {action : Action}
    {object? : Option Value} {stored : List Value} :
    bareRequest answer action object? stored = host.promised frame answer action object? stored ↔
      answer.member.parameters = [] := by
  rw [promised, bareRequest, requestFor, Request.mk.injEq]
  simp only [true_and]
  rw [List.self_eq_append_left, List.map_eq_nil_iff, List.zipIdx_eq_nil_iff]

/-- **What an action does** that finds a member and passes no arguments. -/
structure Passes {α : Type} (find : HostM (Option Resolution)) (action : Action)
    (object? : Option Value) (stored : List Value) (run : HostM α) : Prop where
  /-- Where no member is found that takes what is stored, nothing happens. -/
  unresolved : ∀ frame frame₁ : Frame,
    (find frame = .ok none frame₁ ∨ ∃ e, find frame = .error e frame₁) →
    frame.Untouched (frameOf (run frame))
  /-- Where a member needs an instance and there is none, nothing happens. -/
  refused : ∀ (frame frame₁ : Frame) (answer : Resolution), find frame = .ok (some answer) frame₁ →
    ¬ CanAsk answer action object? → frame.Untouched (frameOf (run frame))
  /-- Else the host is asked, once, and is handed what is stored. -/
  asked : ∀ (frame frame₁ : Frame) (answer : Resolution), find frame = .ok (some answer) frame₁ →
    CanAsk answer action object? → (frameOf (run frame)).requests =
      frame.requests ++ [bareRequest answer action object? stored]
  /-- Every parameter of the member has a default. -/
  optional : ∀ (frame frame₁ : Frame) (answer : Resolution), find frame = .ok (some answer) frame₁ →
    ∀ p ∈ answer.member.parameters, p.isOptional
  /-- That is what was promised exactly where the member has no parameters. -/
  kept_iff : ∀ (frame frame₁ : Frame) (answer : Resolution), find frame = .ok (some answer) frame₁ →
    CanAsk answer action object? → ((frameOf (run frame)).requests =
      frame.requests ++ [host.promised frame₁ answer action object? stored] ↔
        answer.member.parameters = [])

/-! ### One action -/

/-- What a call without arguments addresses has a default for each parameter. -/
theorem isOptional_of_addresses_nothing {names : NameComparison} {parameters : List Parameter}
    {sources : List Source} (h : ({} : Arguments).Addresses names parameters sources)
    {p : Parameter} (hp : p ∈ parameters) : p.isOptional := by
  obtain ⟨k, hk⟩ := List.mem_iff_getElem?.mp hp
  refine isOptional_of_addresses h (List.mk_mem_zipIdx_iff_getElem?.mpr hk) ?_
  rw [Arguments.given?_eq]
  cases p.givenName <;> rfl

section Found

variable {host} {α : Type} {find : HostM (Option Resolution)} {action : Action} {target : Target}
  {stored : List Value} {run : HostM α}

/-- Where the host can be asked, it is asked once. -/
theorem requests_invoke (haction : action ≠ .construct) {answer : Resolution}
    (hcan : CanAsk answer action target.object?) (frame : Frame) :
    (frameOf (host.invoke answer action target stored frame)).requests =
      frame.requests ++ [bareRequest answer action target.object? stored] := by
  rw [host.invoke_of_canAsk haction hcan, ask_apply, bareRequest]
  split <;> rfl

/-- **A run that finds a member without passing arguments**, and then asks the host about it. -/
theorem passes_of_find (haction : action ≠ .construct)
    (huntouched : ∀ frame : Frame, frame.Untouched (frameOf (find frame)))
    (haddresses : ∀ frame answer frame₁, find frame = .ok (some answer) frame₁ →
      ({} : Arguments).Addresses (host.comparison {}) answer.member.parameters answer.fit.sources)
    (hrun : ∀ frame, frameOf (run frame) =
      match find frame with
      | .ok (some answer) frame₁ => frameOf (host.invoke answer action target stored frame₁)
      | .ok none frame₁ => frame₁
      | .error _ frame₁ => frame₁) :
    host.Passes find action target.object? stored run := by
  have hasked : ∀ (frame frame₁ : Frame) (answer : Resolution),
      find frame = .ok (some answer) frame₁ → CanAsk answer action target.object? →
      (frameOf (run frame)).requests =
        frame.requests ++ [bareRequest answer action target.object? stored] := by
    intro frame frame₁ answer hfound hcan
    have hkeep := huntouched frame
    rw [hfound] at hkeep
    rw [hrun, hfound]
    exact (requests_invoke haction hcan frame₁).trans (congrArg (· ++ _) hkeep.2)
  refine ⟨fun frame frame₁ hnone => ?_, fun frame frame₁ answer hfound hcannot => ?_, hasked,
    fun frame frame₁ answer hfound p hp => ?_, fun frame frame₁ answer hfound hcan => ?_⟩
  · have hkeep := huntouched frame
    rw [hrun]
    obtain hnone | ⟨e, hnone⟩ := hnone <;> rw [hnone] at hkeep ⊢ <;> exact hkeep
  · have hkeep := huntouched frame
    obtain ⟨e, he⟩ : ∃ e, host.invoke answer action target stored frame₁ = .error e frame₁ :=
      host.exists_invoke_eq_error hcannot frame₁
    rw [hfound] at hkeep
    rw [hrun, hfound]
    dsimp only
    rw [he]
    exact hkeep
  · exact isOptional_of_addresses_nothing (haddresses frame answer frame₁ hfound) hp
  · rw [hasked frame frame₁ answer hfound hcan, List.append_cancel_left_eq, List.singleton_inj]
    exact host.bareRequest_eq_promised_iff

/-- A run that has to find its member. -/
theorem passes_of_some_find {find : HostM Resolution} {after : Resolution → HostM α}
    (haction : action ≠ .construct)
    (huntouched : ∀ frame : Frame, frame.Untouched (frameOf (find frame)))
    (haddresses : ∀ frame answer frame₁, find frame = .ok answer frame₁ →
      ({} : Arguments).Addresses (host.comparison {}) answer.member.parameters answer.fit.sources)
    (hrun : ∀ frame, run frame = (find >>= after) frame)
    (hafter : ∀ answer frame, frameOf (after answer frame) =
      frameOf (host.invoke answer action target stored frame)) :
    host.Passes (do return some (← find)) action target.object? stored run := by
  refine passes_of_find haction (fun frame => ?_) (fun frame answer frame₁ h => ?_) fun frame => ?_
  · have hkeep := huntouched frame
    rw [some_find_apply]
    cases hfound : find frame <;> rw [hfound] at hkeep <;> exact hkeep
  · rw [some_find_apply] at h
    cases hfound : find frame with
    | ok found frame₂ =>
      rw [hfound] at h
      cases h
      exact haddresses frame _ _ hfound
    | error e frame₂ =>
      rw [hfound] at h
      cases h
  · rw [some_find_apply, hrun, host_bind_apply]
    cases find frame with
    | ok answer frame₁ => exact hafter answer frame₁
    | error e frame₁ => rfl

end Found

/-! ### The actions -/

/-- Find the member that is read. -/
def findRead (target : Target) (kind : MemberKind) (name : String) : HostM Resolution :=
  host.find target { kind, name }

/-- The query for a member that is written: a type that is stored has to flow into it. -/
def writeQuery (kind : MemberKind) (name : String) (a : Argument) : Query :=
  match a.type with
  | some t => ({ kind, name } : Query).storing t
  | none => { kind, name }

/-- Find the member that is written, which has to take what is stored. -/
def findWritten (target : Target) (kind : MemberKind) (name : String) (a : Argument) :
    HostM Resolution := do
  let resolution ← host.find target (writeQuery kind name a)
  ofExcept (checkNull (← get).store resolution.member a)
  return resolution

/-- Find the event that is handed a handler, which must not be null. -/
def findEvent (target : Target) (name : String) (handler : Argument) : HostM Resolution :=
  match handler.type with
  | none => throw .nullHandler
  | some t => host.find target (({ kind := .event, name } : Query).storing t)

theorem passes_read (target : Target) (kind : MemberKind) (name : String) :
    host.Passes (do return some (← host.findRead target kind name)) .getValue target.object? []
      (host.read target { kind, name }) := by
  refine passes_of_some_find (by decide) (fun frame => host.untouched_find _ _ frame)
    (fun _ _ _ h => host.addresses_of_find h) (fun _ => rfl) fun answer frame => ?_
  exact frameOf_bind _ (fun _ _ => rfl) frame

theorem passes_tryGetField (target : Target) (name : String) :
    host.Passes (host.tryFind target { kind := .field, name }) .getValue target.object? []
      (host.tryGetField target name) := by
  refine passes_of_find (by decide) (fun frame => host.untouched_tryFind _ _ frame)
    (fun _ _ _ h => host.addresses_of_tryFind h) fun frame => ?_
  refine (congrArg frameOf (host_bind_apply (host.tryFind target { kind := .field, name }) _
    frame)).trans ?_
  cases host.tryFind target { kind := .field, name } frame with
  | error e frame₁ => rfl
  | ok found frame₁ =>
    cases found with
    | none => rfl
    | some answer =>
      refine (frameOf_bind (host.readResolved answer target) (fun _ _ => rfl) frame₁).trans ?_
      exact frameOf_bind _ (fun _ _ => rfl) frame₁

theorem writeQuery_arguments (kind : MemberKind) (name : String) (a : Argument) :
    (writeQuery kind name a).arguments = {} := by
  unfold writeQuery
  split <;> rfl

theorem findWritten_apply (target : Target) (kind : MemberKind) (name : String) (a : Argument)
    (frame : Frame) : host.findWritten target kind name a frame =
      match host.find target (writeQuery kind name a) frame with
      | .ok answer frame₁ =>
        match checkNull frame₁.store answer.member a with
        | .ok _ => .ok answer frame₁
        | .error e => .error e frame₁
      | .error e frame₁ => .error e frame₁ := by
  unfold findWritten
  rw [host_bind_apply]
  cases host.find target (writeQuery kind name a) frame with
  | error e frame₁ => rfl
  | ok answer frame₁ =>
    refine (host_bind_apply (ofExcept (checkNull frame₁.store answer.member a)) _ frame₁).trans ?_
    dsimp only
    cases checkNull frame₁.store answer.member a <;> rfl

theorem write_apply (target : Target) (kind : MemberKind) (name : String) (a : Argument)
    (frame : Frame) : host.write target { kind, name } a frame =
      (host.findWritten target kind name a >>= fun answer =>
        discard (host.invoke answer .setValue target [a.value])) frame := by
  rw [host_bind_apply, findWritten_apply]
  refine (host_bind_apply (host.find target (writeQuery kind name a)) _ frame).trans ?_
  cases host.find target (writeQuery kind name a) frame with
  | error e frame₁ => rfl
  | ok answer frame₁ =>
    refine (host_bind_apply (ofExcept (checkNull frame₁.store answer.member a)) _ frame₁).trans ?_
    dsimp only
    cases checkNull frame₁.store answer.member a <;> rfl

theorem passes_write (target : Target) (kind : MemberKind) (name : String) (a : Argument) :
    host.Passes (do return some (← host.findWritten target kind name a)) .setValue target.object?
      [a.value] (host.write target { kind, name } a) := by
  refine passes_of_some_find (by decide) (fun frame => ?_) (fun frame answer frame₁ h => ?_)
    (host.write_apply target kind name a) fun answer frame => frameOf_bind _ (fun _ _ => rfl) frame
  · have hkeep := host.untouched_find target (writeQuery kind name a) frame
    rw [findWritten_apply]
    cases hfound : host.find target (writeQuery kind name a) frame with
    | error e frame₁ =>
      rw [hfound] at hkeep
      exact hkeep
    | ok answer frame₁ =>
      rw [hfound] at hkeep
      dsimp only
      cases checkNull frame₁.store answer.member a <;> exact hkeep
  · rw [findWritten_apply] at h
    cases hfound : host.find target (writeQuery kind name a) frame with
    | error e frame₂ =>
      rw [hfound] at h
      cases h
    | ok found frame₂ =>
      rw [hfound] at h
      dsimp only at h
      -- Only what takes what is stored gets past the check.
      cases hcheck : checkNull frame₂.store found.member a with
      | error e =>
        rw [hcheck] at h
        cases h
      | ok _ =>
        rw [hcheck] at h
        cases h
        have haddresses := host.addresses_of_find hfound
        rwa [writeQuery_arguments] at haddresses

theorem passes_handle {action : Action} (haction : action ≠ .construct) (target : Target)
    (name : String) (handler : Argument) :
    host.Passes (do return some (← host.findEvent target name handler)) action target.object?
      [handler.value] (host.handle action target name handler) := by
  unfold findEvent handle
  cases handler.type with
  | none =>
    -- Null is refused before an event is looked for.
    have hrun : ∀ frame, (throw .nullHandler : HostM Unit) frame = ((throw .nullHandler :
        HostM Resolution) >>= fun answer =>
          discard (host.invoke answer action target [handler.value])) frame := fun _ => rfl
    exact passes_of_some_find haction (fun _ => ⟨rfl, rfl⟩) (fun _ _ _ h => by cases h) hrun
      fun _ frame => frameOf_bind _ (fun _ _ => rfl) frame
  | some t =>
    exact passes_of_some_find haction (fun frame => host.untouched_find _ _ frame)
      (fun _ _ _ h => host.addresses_of_find h) (fun _ => rfl)
      fun _ frame => frameOf_bind _ (fun _ _ => rfl) frame

/-- **What the actions hand over**: what is stored, and nothing for the parameters of the member.
This keeps what the host is promised exactly where the member has no parameters. -/
theorem actions_keep_contract_iff (host : Host) (target : Target) (name : String) (a : Argument) :
    host.Passes (do return some (← host.findRead target .field name)) .getValue target.object? []
      (host.getField target name) ∧
    host.Passes (host.tryFind target { kind := .field, name }) .getValue target.object? []
      (host.tryGetField target name) ∧
    host.Passes (do return some (← host.findWritten target .field name a)) .setValue
      target.object? [a.value] (host.setField target name a) ∧
    host.Passes (do return some (← host.findRead target .property name)) .getValue target.object? []
      (host.getProperty target name) ∧
    host.Passes (do return some (← host.findWritten target .property name a)) .setValue
      target.object? [a.value] (host.setProperty target name a) ∧
    host.Passes (do return some (← host.findEvent target name a)) .addHandler target.object?
      [a.value] (host.addEventHandler target name a) ∧
    host.Passes (do return some (← host.findEvent target name a)) .removeHandler target.object?
      [a.value] (host.removeEventHandler target name a) :=
  ⟨host.passes_read target .field name, host.passes_tryGetField target name,
    host.passes_write target .field name a, host.passes_read target .property name,
    host.passes_write target .property name a, host.passes_handle (by decide) target name a,
    host.passes_handle (by decide) target name a⟩

end Host

/-- A host of one member, which answers every request with null and writes nothing. -/
def silentHost (member : Member) : Host :=
  { resolver := { registry := { members := #[member] }, depth := 30 }
    invoker := fun request => { arguments := request.arguments, result := .ok .null } }

/-- **An indexed property is handed too little**: it is read without its index, and written without
it, although the index has a default that was promised. -/
theorem index_not_handed_over :
    let index : Parameter := ⟨0, some "index", Core.int32, some (.constant (.int32 1)), false⟩
    let host := silentHost (Member.property "Item" Core.object [index] Core.int32)
    let target : Target := .object (.object Core.object 0)
    let before : Frame := { store := Store.initial }
    (frameOf (host.getProperty target "Item" before)).requests.map Request.arguments = [[]] ∧
    (frameOf (host.setProperty target "Item" (.ofValue (.int32 7)) before)).requests.map
      Request.arguments = [[.int32 7]] ∧
    (match host.findRead target .property "Item" before with
      | .ok answer frame =>
        [(host.promised frame answer .getValue target.object? []).arguments,
          (host.promised frame answer .setValue target.object? [.int32 7]).arguments]
      | .error _ _ => []) = [[.int32 1], [.int32 1, .int32 7]] := by
  decide +kernel

end CallSite
