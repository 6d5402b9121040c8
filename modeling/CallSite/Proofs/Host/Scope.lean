import CallSite.Proofs.Host.Action
import CallSite.Proofs.Resolve.Failure
import CallSite.Proofs.Resolve.Scope

/-!
# What is asked for a target

A member of an instance cannot be acted on without one, and a host that is asked to do so has to
refuse. It is never asked. What keeps a member of an instance away from a type is not the check
before the host but the mask: the options are applied first, then the members of instances are taken
out, and the options, which are applied once more when the query is answered, add other flags only
(`CallSite.staticOnly_effectiveAccess`). So what is found through a type is static wherever it is
found.

* `Asks` – what a run asks the host for, with what it ends. Runs are put together by `Asks.bind`.
* `Request.Suits` – a static member is asked for without an instance, any other with that of the
  target.
* `Target.ServedBy` – a run asks once, for what suits its target, or it finds nothing to ask for;
  and if it ends with a failure of the host then it was the host that failed so.
* `Host.targets_served` – this is so for all that can be done with a member.
-/

namespace CallSite

/-! ### What is asked during a run -/

/-- **What a run asks the host for**, with what it ends: the requests that were added, together with
the value or the failure. -/
def Asks {α : Type} (x : HostM α) (ok : List Request → α → Prop)
    (failed : List Request → ResolveError → Prop) : Prop :=
  ∀ frame, ∃ asked, (frameOf (x frame)).requests = frame.requests ++ asked ∧
    match x frame with
    | .ok a _ => ok asked a
    | .error e _ => failed asked e

namespace Asks

variable {α β : Type} {ok : List Request → α → Prop} {failed : List Request → ResolveError → Prop}

theorem pure {a : α} (h : ok [] a) : Asks (Pure.pure a) ok failed :=
  fun frame => ⟨[], (List.append_nil frame.requests).symm, h⟩

theorem throw {e : ResolveError} (h : failed [] e) : Asks (MonadExcept.throw e) ok failed :=
  fun frame => ⟨[], (List.append_nil frame.requests).symm, h⟩

/-- To look at what is kept asks for nothing. -/
theorem get_bind {f : Frame → HostM α} (h : ∀ frame, Asks (f frame) ok failed) :
    Asks (get >>= f) ok failed :=
  fun frame => h frame frame

/-- To change what is kept, but not what was asked, asks for nothing. -/
theorem modify_bind {g : Frame → Frame} {f : PUnit → HostM α}
    (hg : ∀ frame, (g frame).requests = frame.requests) (h : Asks (f ⟨⟩) ok failed) :
    Asks (modify g >>= f) ok failed := by
  intro frame
  obtain ⟨asked, hrequests, hend⟩ := h (g frame)
  rw [hg] at hrequests
  exact ⟨asked, hrequests, hend⟩

/-- One run after another asks for what both ask for. -/
theorem bind {x : HostM α} {f : α → HostM β} {mid : List Request → α → Prop}
    {ok : List Request → β → Prop} (hx : Asks x mid failed)
    (hf : ∀ asked a, mid asked a → Asks (f a) (fun more b => ok (asked ++ more) b)
      fun more e => failed (asked ++ more) e) : Asks (x >>= f) ok failed := by
  intro frame
  obtain ⟨asked, hrequests, hend⟩ := hx frame
  rw [host_bind_apply]
  cases hrun : x frame with
  | error e frame₁ =>
    rw [hrun] at hrequests hend
    exact ⟨asked, hrequests, hend⟩
  | ok a frame₁ =>
    rw [hrun] at hrequests hend
    obtain ⟨more, hmore, hlast⟩ := hf asked a hend frame₁
    refine ⟨asked ++ more, ?_, hlast⟩
    dsimp only [frameOf] at hrequests hmore ⊢
    rw [hmore, hrequests, List.append_assoc]

/-- What is known of a run may be forgotten. -/
theorem imp {x : HostM α} {ok' : List Request → α → Prop}
    {failed' : List Request → ResolveError → Prop} (h : Asks x ok failed)
    (hok : ∀ asked a, ok asked a → ok' asked a)
    (hfailed : ∀ asked e, failed asked e → failed' asked e) : Asks x ok' failed' := by
  intro frame
  obtain ⟨asked, hrequests, hend⟩ := h frame
  refine ⟨asked, hrequests, ?_⟩
  cases hrun : x frame with
  | ok a frame₁ =>
    rw [hrun] at hend
    exact hok asked a hend
  | error e frame₁ =>
    rw [hrun] at hend
    exact hfailed asked e hend

end Asks

/-! ### Requests that suit a target -/

/-- **A request suits a target**: a static member is asked for without an instance, and any other
member with the instance on which it was found. So what is asked for through a type is static. -/
structure Request.Suits (request : Request) (target : Target) : Prop where
  /-- A static member needs no instance and is given none. -/
  static : request.member.isStatic → request.target = none
  /-- A member of an instance is given the instance. -/
  ofInstance : request.member.isStatic = false →
    ∃ value, target = .object value ∧ request.target = some value

theorem Target.isOwn_of_type? {target : Target} {e : ResolveError} (h : target.type? = .error e) :
    e.IsOwn := by
  unfold Target.type? at h
  split at h
  · split at h
    · cases h
    · cases h
      trivial
  · cases h

/-- A member may be asked for through a target: any member through an instance, a static member
through a type. -/
def Target.Shows (target : Target) (member : Member) : Prop :=
  ∀ t, target = .type t → member.isStatic

/-- **A run that never misses its target**. Where it succeeds the host was asked once, for what
suits the target, unless the value says that there was nothing to ask for. Where it fails nothing
was asked, or the host was asked so and the failure is to be blamed on that request. -/
def Target.ServedBy {α : Type} (target : Target) (blamed : Request → InvokeError → Prop)
    (idle : α → Prop) (run : HostM α) : Prop :=
  Asks run
    (fun asked a => asked = [] ∧ idle a ∨ ∃ request, asked = [request] ∧ request.Suits target)
    fun asked e => asked = [] ∧ e.IsOwn ∨ ∃ request why, asked = [request] ∧ request.Suits target ∧
      e = .invoke why ∧ blamed request why

/-- A computation that asks for nothing, does not fail for the host and gives what has a
property. -/
def Quiet {α : Type} (P : α → Prop) (x : HostM α) : Prop :=
  Asks x (fun asked a => asked = [] ∧ P a) fun asked e => asked = [] ∧ e.IsOwn

theorem quiet_ofResolve {α : Type} {x : ResolveM α} (hx : FailsWith ResolveError.IsOwn x)
    {P : α → Prop} (hP : ∀ s a s', x s = .ok a s' → P a) : Quiet P (ofResolve x) := by
  intro frame
  refine ⟨[], ?_, ?_⟩
  · rw [(Host.untouched_ofResolve x frame).2, List.append_nil]
  · unfold ofResolve
    cases hrun : x frame.store with
    | ok a s => exact ⟨rfl, hP _ a s hrun⟩
    | error e s => exact ⟨rfl, hx _ e s hrun⟩

theorem quiet_ofExcept {α : Type} {x : Except ResolveError α} (h : ∀ e, x = .error e → e.IsOwn) :
    Quiet (fun a => x = .ok a) (ofExcept x) := by
  cases x with
  | ok a => exact .pure ⟨rfl, rfl⟩
  | error e => exact .throw ⟨rfl, h e rfl⟩

/-- What comes after a computation that asks for nothing decides what is asked. -/
theorem Quiet.bind {α β : Type} {x : HostM α} {f : α → HostM β} {P : α → Prop}
    {ok : List Request → β → Prop} {failed : List Request → ResolveError → Prop} (hx : Quiet P x)
    (hfailed : ∀ e, e.IsOwn → failed [] e) (hf : ∀ a, P a → Asks (f a) ok failed) :
    Asks (x >>= f) ok failed := by
  refine .bind (hx.imp (fun _ _ h => h) fun asked e h => ?_) fun asked a h => ?_
  · rw [h.1]
    exact hfailed e h.2
  · rw [h.1]
    exact hf a h.2

/-- What is known of the values of a computation is known of the one that it gives. -/
theorem Quiet.of_ok {α : Type} {x : HostM α} {P : α → Prop} (hx : Quiet P x) {frame frame₁ : Frame}
    {a : α} (h : x frame = .ok a frame₁) : P a := by
  obtain ⟨asked, -, hend⟩ := hx frame
  rw [h] at hend
  exact hend.2

namespace Host

variable (host : Host) (target : Target)

/-- The host failed as it was asked. -/
def Refuses (request : Request) (why : InvokeError) : Prop :=
  (host.invoker request).result = .error why

/-! ### Finding a member -/

/-- Through a type the mask in effect sees no member of an instance. -/
theorem staticOnly_inScope (t : TypeId) (query : Query) :
    (host.resolver.options.effectiveAccess (host.inScope (.type t) query).access).StaticOnly :=
  staticOnly_effectiveAccess host.resolver.options _

/-- **What is found can be asked for.** -/
theorem quiet_tryFind (query : Query) :
    Quiet (fun answer? => ∀ answer ∈ answer?, target.Shows answer.member)
      (host.tryFind target query) := by
  refine (quiet_ofExcept fun _ => Target.isOwn_of_type?).bind (fun e he => ⟨rfl, he⟩) fun t ht => ?_
  refine quiet_ofResolve (host.resolver.failsWith_tryResolve t _)
    fun s answer? s' h answer hanswer => ?_
  obtain rfl := Option.mem_def.mp hanswer
  rintro u rfl
  exact Resolver.isStatic_of_tryResolve (host.staticOnly_inScope u query) h

theorem quiet_find (query : Query) :
    Quiet (fun answer => target.Shows answer.member) (host.find target query) := by
  refine (quiet_ofExcept fun _ => Target.isOwn_of_type?).bind (fun e he => ⟨rfl, he⟩) fun t ht => ?_
  refine quiet_ofResolve (host.resolver.failsWith_resolve t _) fun s answer s' h => ?_
  rintro u rfl
  exact Resolver.isStatic_of_tryResolve (host.staticOnly_inScope u query)
    (Resolver.tryResolve_of_resolve h)

/-! ### Asking for what was found -/

variable {target}

theorem canAsk_of_shows {answer : Resolution} (h : target.Shows answer.member) (action : Action) :
    CanAsk answer action target.object? := by
  cases target with
  | object value => exact .inr (.inr rfl)
  | type t => exact .inr (.inl (h t rfl))

/-- The host was asked for a member in a way that suits the target, and answered. -/
def Answered (target : Target) (member : Member) (asked : List Request) (value : Value) : Prop :=
  ∃ request : Request, asked = [request] ∧ request.Suits target ∧ request.member = member ∧
    (host.invoker request).result = .ok value

/-- The host was asked in a way that suits the target, and failed. -/
def Refused (target : Target) (asked : List Request) (e : ResolveError) : Prop :=
  ∃ (request : Request) (why : InvokeError), asked = [request] ∧ request.Suits target ∧
    e = .invoke why ∧ host.Refuses request why

theorem asks_ask (request : Request) : Asks (host.ask request)
    (fun asked out => asked = [request] ∧ (host.invoker request).result = .ok out.2)
    fun asked e => asked = [request] ∧ ∃ why, e = .invoke why ∧ host.Refuses request why := by
  intro frame
  rw [ask_apply]
  refine ⟨[request], ?_⟩
  cases hresult : (host.invoker request).result with
  | ok value => exact ⟨rfl, rfl, rfl⟩
  | error why => exact ⟨rfl, rfl, why, rfl, hresult⟩

/-- **Where a member can be asked for the host is asked for it**, in the way that suits the
target. -/
theorem asks_invoke {answer : Resolution} (h : target.Shows answer.member) {action : Action}
    (haction : action ≠ .construct) (values : List Value) :
    Asks (host.invoke answer action target values)
      (fun asked out => host.Answered target answer.member asked out.2) (host.Refused target) := by
  have hsuits : (bareRequest answer action target.object? values).Suits target := by
    refine ⟨fun hstatic => if_pos hstatic, fun (hmember : answer.member.isStatic = false) => ?_⟩
    have hnot : ¬ answer.member.isStatic = true := ne_true_of_eq_false hmember
    cases target with
    | object value => exact ⟨value, rfl, if_neg hnot⟩
    | type t => exact absurd (h t rfl) hnot
  rw [host.invoke_of_canAsk haction (canAsk_of_shows h action)]
  refine (host.asks_ask (bareRequest answer action target.object? values)).imp
    (fun asked out hout => ?_) fun asked e hfailed => ?_
  · exact ⟨_, hout.1, hsuits, rfl, hout.2⟩
  · obtain ⟨hasked, why, he, hwhy⟩ := hfailed
    exact ⟨_, why, hasked, hsuits, he, hwhy⟩

/-- To call a member is to ask for it, whatever is handed over and handed back. -/
theorem asks_callResolved {answer : Resolution} (h : target.Shows answer.member) :
    Asks (host.callResolved answer target) (host.Answered target answer.member)
      (host.Refused target) := by
  unfold callResolved callWith
  refine .get_bind fun frame => (host.asks_invoke h (by decide) _).bind fun asked out hout => ?_
  refine .modify_bind (fun _ => rfl) (.pure ?_)
  rw [List.append_nil]
  exact hout

/-- **What is done with a member that was found** decides what is asked. -/
theorem servedBy_of_find {α β : Type} {P : β → Prop} {find : HostM β} {after : β → HostM α}
    {blamed : Request → InvokeError → Prop} {idle : α → Prop} (hfind : Quiet P find)
    (hafter : ∀ found, P found → target.ServedBy blamed idle (after found)) :
    target.ServedBy blamed idle (find >>= after) :=
  hfind.bind (fun _ he => .inl ⟨rfl, he⟩) hafter

/-- What a run gives may be replaced. -/
theorem servedBy_map {α β : Type} {blamed : Request → InvokeError → Prop} {idle : α → Prop}
    {idle' : β → Prop} {run : HostM α} (h : target.ServedBy blamed idle run) {f : α → β}
    (hf : ∀ a, idle a → idle' (f a)) : target.ServedBy blamed idle' (f <$> run) := by
  rw [map_eq_pure_bind]
  refine Asks.bind h fun asked a hasked => .pure ?_
  rw [List.append_nil]
  exact hasked.imp_left fun hidle => ⟨hidle.1, hf a hidle.2⟩

/-! ### The operations -/

/-- There is always something to ask for. -/
def never {α : Type} (_ : α) : Prop :=
  False

/-- To act on what was found serves the target. -/
theorem servedBy_invoke {answer : Resolution} (h : target.Shows answer.member) {action : Action}
    (haction : action ≠ .construct) (values : List Value) :
    target.ServedBy host.Refuses never (host.invoke answer action target values) :=
  (host.asks_invoke h haction values).imp
    (fun _ _ ⟨request, hasked, hsuits, _⟩ => .inr ⟨request, hasked, hsuits⟩) fun _ _ he => .inr he

theorem servedBy_callResolved {answer : Resolution} (h : target.Shows answer.member) :
    target.ServedBy host.Refuses never (host.callResolved answer target) :=
  (host.asks_callResolved h).imp
    (fun _ _ ⟨request, hasked, hsuits, _⟩ => .inr ⟨request, hasked, hsuits⟩) fun _ _ he => .inr he

variable (target)

theorem servedBy_read (query : Query) :
    target.ServedBy host.Refuses never (host.read target query) :=
  servedBy_of_find (host.quiet_find target query) fun _ h =>
    servedBy_map (host.servedBy_invoke h (by decide) []) fun _ hnever => hnever

theorem servedBy_tryGetField (name : String) :
    target.ServedBy host.Refuses (· = none) (host.tryGetField target name) := by
  refine servedBy_of_find (host.quiet_tryFind target _) fun answer? h => ?_
  cases answer? with
  | none => exact .pure (.inl ⟨rfl, rfl⟩)
  | some answer =>
    have hread : target.ServedBy host.Refuses never (host.readResolved answer target) :=
      servedBy_map (host.servedBy_invoke (h answer rfl) (by decide) []) fun _ hnever => hnever
    exact servedBy_map hread fun _ hnever => hnever.elim

theorem quiet_findWritten (kind : MemberKind) (name : String) (a : Argument) :
    Quiet (fun answer => target.Shows answer.member) (host.findWritten target kind name a) := by
  refine (host.quiet_find target _).bind (fun e he => ⟨rfl, he⟩) fun answer h => ?_
  refine .get_bind fun frame => ?_
  refine (quiet_ofExcept fun e he => ?_).bind (fun e he => ⟨rfl, he⟩) fun _ _ => .pure ⟨rfl, h⟩
  unfold checkNull at he
  split at he
  · cases he
  · cases he
    trivial

theorem servedBy_write (kind : MemberKind) (name : String) (a : Argument) :
    target.ServedBy host.Refuses never (host.write target { kind, name } a) := by
  have hwrite := funext (host.write_apply target kind name a)
  rw [hwrite]
  exact servedBy_of_find (host.quiet_findWritten target kind name a) fun _ h =>
    servedBy_map (host.servedBy_invoke h (by decide) [a.value]) fun _ hnever => hnever

theorem servedBy_handle {action : Action} (haction : action ≠ .construct) (name : String)
    (handler : Argument) :
    target.ServedBy host.Refuses never (host.handle action target name handler) := by
  unfold handle
  split
  · exact .throw (.inl ⟨rfl, trivial⟩)
  · exact servedBy_of_find (host.quiet_find target _) fun _ h =>
      servedBy_map (host.servedBy_invoke h haction [handler.value]) fun _ hnever => hnever

theorem quiet_methodQuery (name : String) (methodArguments : List TypeId) :
    Quiet (fun _ => True) (methodQuery name methodArguments) :=
  .get_bind fun _ => .pure ⟨rfl, trivial⟩

theorem servedBy_callGenericMethod (name : String) (methodArguments : List TypeId) :
    target.ServedBy host.Refuses never (host.callGenericMethod target name methodArguments) :=
  servedBy_of_find (quiet_methodQuery name methodArguments) fun query _ =>
    servedBy_of_find (host.quiet_find target query) fun _ h => host.servedBy_callResolved h

theorem servedBy_tryCallMethod (name : String) :
    target.ServedBy host.Refuses (· = none) (host.tryCallMethod target name) := by
  refine servedBy_of_find (quiet_methodQuery name []) fun query _ =>
    servedBy_of_find (host.quiet_tryFind target query) fun answer? h => ?_
  cases answer? with
  | none => exact .pure (.inl ⟨rfl, rfl⟩)
  | some answer =>
    exact servedBy_map (host.servedBy_callResolved (h answer rfl)) fun _ hnever => hnever.elim

/-- The host failed as it was asked, or it gave a value that could not be waited for. -/
def RefusesAwaited (awaiter : Awaiter) (request : Request) (why : InvokeError) : Prop :=
  host.Refuses request why ∨ ∃ value, (host.invoker request).result = .ok value ∧
    awaiter.await request.member value = .error why

theorem servedBy_callMethodAwaited (awaiter : Awaiter) (name : String) :
    target.ServedBy (host.RefusesAwaited awaiter) never
      (host.callMethodAwaited awaiter target name) := by
  refine servedBy_of_find (quiet_methodQuery name []) fun query _ =>
    servedBy_of_find (host.quiet_find target query) fun answer h => ?_
  refine Asks.bind ((host.asks_callResolved h).imp (fun _ _ hvalue => hvalue) fun asked e he => ?_)
    fun asked value hvalue => ?_
  · obtain ⟨request, why, hasked, hsuits, he, hwhy⟩ := he
    exact .inr ⟨request, why, hasked, hsuits, he, .inl hwhy⟩
  · obtain ⟨request, rfl, hsuits, hmember, hresult⟩ := hvalue
    refine .get_bind fun frame => ?_
    split
    · cases hawait : awaiter.await answer.member value with
      | ok awaited => exact .pure (.inr ⟨request, rfl, hsuits⟩)
      | error why =>
        exact .throw
          (.inr ⟨request, why, rfl, hsuits, rfl, .inr ⟨value, hresult, hmember ▸ hawait⟩⟩)
    · exact .pure (.inr ⟨request, rfl, hsuits⟩)

/-- **No target is missed.** Whatever the options, the types and the host, through a type only
static members are listed and found, and whatever is found the host can be asked for. So the host is
asked, once, without an instance for a static member and with that of the target for any other,
unless nothing was found; and a failure of the host is one that it answered with, never one for want
of an instance before it was asked. -/
theorem targets_served (host : Host) (awaiter : Awaiter) (target : Target) (name : String)
    (a : Argument) (methodArguments : List TypeId) :
    (∀ t query u query' s listed s', target = .type t →
      candidates host.resolver.registry
        (host.resolver.options.effectiveAccess (host.inScope target query).access) query' u s =
          .ok listed s' → ∀ candidate ∈ listed, candidate.1.isStatic) ∧
    (∀ query frame answer frame₁, host.find target query frame = .ok answer frame₁ ∨
      host.tryFind target query frame = .ok (some answer) frame₁ →
        (∀ t, target = .type t → answer.member.isStatic) ∧
        ∀ action values, action ≠ .construct → host.invoke answer action target values =
          host.ask (bareRequest answer action target.object? values)) ∧
    target.ServedBy host.Refuses never (host.getField target name) ∧
    target.ServedBy host.Refuses (· = none) (host.tryGetField target name) ∧
    target.ServedBy host.Refuses never (host.setField target name a) ∧
    target.ServedBy host.Refuses never (host.getProperty target name) ∧
    target.ServedBy host.Refuses never (host.setProperty target name a) ∧
    target.ServedBy host.Refuses never (host.callMethod target name) ∧
    target.ServedBy host.Refuses (· = none) (host.tryCallMethod target name) ∧
    target.ServedBy host.Refuses never (host.callGenericMethod target name methodArguments) ∧
    target.ServedBy (host.RefusesAwaited awaiter) never
      (host.callMethodAwaited awaiter target name) ∧
    target.ServedBy host.Refuses never (host.addEventHandler target name a) ∧
    target.ServedBy host.Refuses never (host.removeEventHandler target name a) := by
  refine ⟨?_, fun query frame answer frame₁ h => ?_, host.servedBy_read target _,
    host.servedBy_tryGetField target name, host.servedBy_write target .field name a,
    host.servedBy_read target _, host.servedBy_write target .property name a,
    host.servedBy_callGenericMethod target name [], host.servedBy_tryCallMethod target name,
    host.servedBy_callGenericMethod target name methodArguments,
    host.servedBy_callMethodAwaited target awaiter name,
    host.servedBy_handle target (by decide) name a, host.servedBy_handle target (by decide) name a⟩
  · rintro t query u query' s listed s' rfl h candidate hmem
    exact isStatic_of_candidates (host.staticOnly_inScope t query) h hmem
  · have hshows : target.Shows answer.member := h.elim (host.quiet_find target query).of_ok
      fun hfound => (host.quiet_tryFind target query).of_ok hfound answer rfl
    exact ⟨hshows, fun action values haction =>
      host.invoke_of_canAsk haction (canAsk_of_shows hshows action)⟩

/-- A static property is read without the instance on which it was looked for, and a property of an
instance is not found through the type. -/
example :
    let shared :=
      silentHost { Member.property "Empty" Core.string [] Core.string with isStatic := true }
    let owned := silentHost (Member.property "Length" Core.string [] Core.int32)
    let before : Frame := { store := Store.initial }
    (frameOf (shared.getProperty (.object (.string "a")) "Empty" before)).requests.map
      Request.target = [none] ∧
    (frameOf (owned.getProperty (.object (.string "a")) "Length" before)).requests.map
      Request.target = [some (.string "a")] ∧
    (frameOf (owned.getProperty (.type Core.string) "Length" before)).requests = [] := by
  decide +kernel

end Host

end CallSite
