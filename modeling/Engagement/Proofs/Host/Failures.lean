import Engagement.Engine.Session

/-! # Failing look-ups

Conditions, goals and waits read five services: identity, the last time and the number of events,
segments and features. A read that fails is taken for one that finds nothing, so a decision is the
same as in a world where the failing services are in order and have no data. Goals on events and
segments keep the two apart: they are not met when their look-up fails, also where a user without
data would meet them. Nothing else of a step depends on these services.
-/

namespace Engagement

namespace Service

/-- Whether a service is only looked something up in. -/
def isRead : Service → Bool
  | .last | .first | .count | .segments | .identityGet | .features => true
  | .track | .identitySet | .profile | .host => false

/-- Whether a service answers from the event log. -/
def readsLog : Service → Bool
  | .last | .first | .count => true
  | _ => false

end Service

/-- The services that conditions read, as one user is told. Every answer may be a fault. -/
structure Ports where
  userProperty : String → Except HostFault (Option Json)
  /-- Last occurrence of an event since an instant. -/
  lastTime : String → Option Instant → Except HostFault (Option Instant)
  /-- Occurrences of an event since an instant. -/
  count : String → Option Instant → Except HostFault Nat
  inSegment : String → Except HostFault Bool
  access : String → Except HostFault Access

namespace Ports

/-- The same services, where those that fail answer that they have no data. -/
def lacking (ports : Ports) (fails : Service → Bool) : Ports where
  userProperty key := if fails .identityGet then .ok none else ports.userProperty key
  lastTime name since := if fails .last then .ok none else ports.lastTime name since
  count name since := if fails .count then .ok 0 else ports.count name since
  inSegment segment := if fails .segments then .ok false else ports.inSegment segment
  access feature := if fails .features then .ok Access.none else ports.access feature

/-- The sources of conditions behind these services, at an instant, with the properties of an event
if one is at hand. -/
def reader (ports : Ports) (now : Instant) (event : Option Json.Fields) : Reader where
  now := now
  userProperty key :=
    match event, Host.eventKey? key with
    | some properties, some k => Json.Fields.get? properties k
    | _, _ => (ports.userProperty key).toOption.join
  lastTime name since := (ports.lastTime name since).toOption.join
  count name since := (ports.count name since).toOption.getD 0
  inSegment segment := (ports.inSegment segment).toOption.getD false
  access feature _ := (ports.access feature).toOption.getD Access.none

end Ports

namespace Host

variable (host : Host)

/-- What a user is told. -/
def ports (user : String) : Ports where
  userProperty := host.userProperty
  lastTime name since := host.lastTime name user since none
  count name since := host.countEvents name user since none
  inSegment := host.inSegment
  access := host.access

/-- Whether a service fails: it is out of order, or needs the event log, which is offline. -/
def fails (service : Service) : Bool :=
  (host.fault? service).isSome || host.log.offline && service.readsLog

/-- The host with every service in order that is only looked something up in. -/
def repaired : Host :=
  { host with
    faults := host.faults.filter (!·.1.isRead)
    log := { host.log with offline := false } }

/-- What a user is told where the services that fail have no data instead. -/
def spared (user : String) : Ports := (host.repaired.ports user).lacking host.fails

theorem reader_eq_ports (user : String) (now : Instant) (event : Option Json.Fields) :
    host.reader user now event = (host.ports user).reader now event := by
  simp only [reader, Ports.reader, ports, Reader.mk.injEq, true_and, and_true]
  funext key
  unfold propertyOf
  cases event <;> cases eventKey? key <;> rfl

/-! ## Faults -/

theorem fault?_repaired (service : Service) :
    host.repaired.fault? service = if service.isRead then none else host.fault? service := by
  simp only [fault?, repaired]
  induction host.faults with
  | nil => simp
  | cons fault faults ih =>
    by_cases hr : fault.1.isRead <;> by_cases hs : fault.1 = service <;> grind

theorem guarded_repaired {α : Type} {service : Service} (hs : service.isRead = false)
    (answer : Except HostFault α) :
    host.repaired.guarded service answer = host.guarded service answer := by
  simp only [guarded, fault?_repaired, hs, Bool.false_eq_true, ↓reduceIte]

theorem guarded_map {α β : Type} (service : Service) (f : α → β) (answer : Except HostFault α) :
    host.guarded service (answer.map f) = (host.guarded service answer).map f := by
  unfold guarded
  split <;> rfl

theorem offline_times {α : Type} (ho : host.log.offline) (name user : String)
    (since before : Option Instant) (digest : List Instant → α) :
    ∃ fault, (host.log.times name user since before).map digest = .error fault :=
  ⟨_, by rw [EventLog.times, if_pos ho]; rfl⟩

/-- A service that fails answers with a fault. -/
theorem guarded_of_fails {α : Type} {service : Service} (h : host.fails service)
    {answer : Except HostFault α}
    (ha : host.log.offline → service.readsLog → ∃ fault, answer = .error fault) :
    ∃ fault, host.guarded service answer = .error fault := by
  unfold guarded
  cases hf : host.fault? service with
  | some fault => exact ⟨fault, rfl⟩
  | none =>
    simp only [fails, hf, Option.isSome_none, Bool.false_or, Bool.and_eq_true] at h
    exact ha h.1 h.2

theorem inSegment_of_fails (h : host.fails .segments) (segment : String) :
    ∃ fault, host.inSegment segment = .error fault :=
  host.guarded_of_fails h fun _ hl => nomatch hl

theorem firstTime_of_fails (h : host.fails .first) (name user : String)
    (since before : Option Instant) :
    ∃ fault, host.firstTime name user since before = .error fault :=
  host.guarded_of_fails h fun ho _ => host.offline_times ho name user since before _

/-! ## Conditions -/

/-- Without faults, a user is told what the host knows, and of a service that fails that it has no
data. -/
theorem spared_eq (user : String) :
    host.spared user =
      { userProperty := fun key => .ok (host.userProperty key).toOption.join
        lastTime := fun name since => .ok (host.lastTime name user since none).toOption.join
        count := fun name since => .ok ((host.countEvents name user since none).toOption.getD 0)
        inSegment := fun segment => .ok ((host.inSegment segment).toOption.getD false)
        access := fun feature => .ok ((host.access feature).toOption.getD Access.none) } := by
  simp only [spared, Ports.lacking, ports, fails, userProperty, lastTime, countEvents, inSegment,
    access, EventLog.last, EventLog.count, EventLog.times, guarded, fault?_repaired,
    Service.isRead, Service.readsLog, ↓reduceIte, Bool.and_true, Bool.and_false, Bool.or_false,
    Ports.mk.injEq]
  refine ⟨?_, ?_, ?_, ?_, ?_⟩
  · cases host.fault? .identityGet <;> rfl
  · cases host.fault? .last <;> cases host.log.offline <;> rfl
  · cases host.fault? .count <;> cases host.log.offline <;> rfl
  · cases host.fault? .segments <;> rfl
  · cases host.fault? .features <;> rfl

/-- A condition sees no difference between a service that fails and one without data. -/
theorem reader_spared (user : String) (now : Instant) (event : Option Json.Fields) :
    host.reader user now event = (host.spared user).reader now event := by
  rw [reader_eq_ports, spared_eq]
  rfl

/-! ## Changes of the host -/

theorem repaired_track (journey : JourneyId) (name : String) (properties : Json.Fields) :
    host.repaired.track journey name properties =
      (host.track journey name properties).map repaired := by
  rw [track, track, guarded_repaired _ rfl, ← guarded_map]
  rfl

theorem repaired_setAttribute (key : String) (value : Json) :
    host.repaired.setAttribute key value = (host.setAttribute key value).map repaired := by
  rw [setAttribute, setAttribute, guarded_repaired _ rfl, ← guarded_map]
  rfl

end Host

namespace Step

variable (host : Host) (node : Node) (journey : Journey)

/-- Whether a node looks something up. -/
def looksUp : Bool :=
  match node.action with
  | .branch _ | .waitUntil _ => true
  | _ => false

/-- What a node decides that looks something up; none for any other node. -/
def decision? (reader : Reader) (ctx : StepContext) : Option StepResult :=
  match node.action with
  | .branch condition =>
    some (match node.next[if condition.holds reader then 0 else 1]? with
      | some next => .proceed next
      | none => .skip none)
  | .waitUntil paths => some (waitUntil reader journey.enteredAt ctx.now paths)
  | _ => none

theorem isSome_decision (reader : Reader) (ctx : StepContext) :
    (decision? node journey reader ctx).isSome = looksUp node := by
  unfold decision? looksUp
  split <;> rfl

/-- A node that looks something up decides by that alone. -/
theorem execute_of_decision {ctx : StepContext} {result : StepResult}
    (h : decision? node journey (host.reader journey.distinctId ctx.now none) ctx = some result) :
    execute host node journey ctx = (host, .finished result) := by
  unfold decision? at h
  unfold execute
  split at h
  case h_3 => cases h
  all_goals
    rename_i heq
    simp only [heq]
    exact congrArg (fun result => (host, Progress.finished result)) (Option.some.inj h)

theorem waitUntil_ne_errored (reader : Reader) (enteredAt now : Instant) (paths : List WaitPath)
    (message : String) : waitUntil reader enteredAt now paths ≠ .complete (.errored message) := by
  unfold waitUntil
  split
  · simp
  · dsimp only
    split <;> simp

theorem decision?_ne_errored (reader : Reader) (ctx : StepContext) (message : String) :
    decision? node journey reader ctx ≠ some (.complete (.errored message)) := by
  unfold decision?
  split
  · split <;> simp
  · simp [waitUntil_ne_errored]
  · simp

/-! ## Steps that look nothing up -/

theorem trackPurchase_repaired (flow product : String) (transaction : Option String) :
    trackPurchase host.repaired journey flow product transaction =
      (trackPurchase host journey flow product transaction).repaired := by
  simp only [trackPurchase, Host.repaired_track]
  generalize host.track _ _ _ = tracked
  cases tracked <;> rfl

theorem conclude_repaired (flow : String) (result : Showing) :
    conclude host.repaired node journey flow result =
      (conclude host node journey flow result).map Host.repaired id := by
  unfold conclude
  cases result with
  | error fault => cases fault <;> rfl
  | ok outcome =>
    let shown : Host := { host with presenter := host.presenter.noteShown flow (.ok outcome) }.note
      journey.id (.presented flow)
    cases outcome with
    | purchased product transaction =>
      exact Prod.ext (trackPurchase_repaired shown journey flow product transaction) rfl
    | _ => rfl

theorem showContent_repaired (flow : String) (ctx : StepContext) :
    showContent host.repaired node journey flow ctx =
      (showContent host node journey flow ctx).map Host.repaired id := by
  unfold showContent
  change (if (!ctx.canPresent || host.presenter.presenting) = true then _ else _) = _
  split
  · rfl
  · rcases hp : host.presenter.present flow with ⟨cue, stays, presenter⟩
    have hr : host.repaired.presenter.present flow = (cue, stays, presenter) := hp
    let shown : Host := { host with presenter := presenter }
    have concluded (shown : Host) :=
      congrArg (fun r : Host × StepResult => (r.1, Progress.finished r.2))
        (conclude_repaired shown node journey flow cue.result)
    simp only [hr]
    cases cue.gate with
    | none => exact concluded shown
    | some gate =>
      cases stays with
      | false => exact concluded (shown.note journey.id (.showing flow))
      | true => rfl

theorem change_repaired (service : String) (changed : Except HostFault Host) :
    change host.repaired node service (changed.map Host.repaired) =
      (change host node service changed).map Host.repaired id := by
  cases changed <;> rfl

theorem execute_repaired {ctx : StepContext}
    (h : looksUp node = false) :
    execute host.repaired node journey ctx =
      (execute host node journey ctx).map Host.repaired id := by
  unfold looksUp at h
  unfold execute
  split
  · simp_all
  · exact showContent_repaired host node journey _ ctx
  · simp_all
  · rfl
  · rw [Host.fault?_repaired]
    cases host.fault? .host <;> rfl
  · rw [Host.repaired_setAttribute, change_repaired]
  · split
    · rfl
    · rw [Host.repaired_track, change_repaired]
  · rfl

end Step

namespace Session

/-- A stage of a step that looks nothing up does not depend on the services that are only looked
something up in. -/
theorem stage_repaired (host : Host) (flight : Flight)
    (h : Step.looksUp flight.node = false) :
    stage host.repaired flight = (stage host flight).map Host.repaired id := by
  unfold stage
  cases flight.phase with
  | ready =>
    dsimp only
    rw [Step.execute_repaired _ _ _ h]
    rcases Step.execute host flight.node flight.journey flight.context with ⟨after, _ | _⟩ <;> rfl
  | closing result =>
    dsimp only
    split
    · exact congrArg (fun r : Host × StepResult => (r.1, Phase.finished r.2))
        (Step.conclude_repaired { host with presenter := host.presenter.close } flight.node
          flight.journey _ result)
    · rfl
  | _ => rfl

/-- A step that looks something up does not end its journey as errored. -/
theorem stage_ne_errored (host : Host) (flight : Flight) (h : Step.looksUp flight.node)
    (message : String) :
    (stage host flight).2 ≠ .finished (.complete (.errored message)) := by
  unfold stage
  cases hp : flight.phase with
  | ready =>
    obtain ⟨result, hd⟩ := Option.isSome_iff_exists.mp
      ((Step.isSome_decision flight.node flight.journey
        (host.reader flight.journey.distinctId flight.context.now none) flight.context).trans h)
    simp only [Step.execute_of_decision host _ _ hd, ne_eq, Phase.finished.injEq]
    rintro rfl
    exact Step.decision?_ne_errored _ _ _ _ _ hd
  | closing result =>
    unfold Step.looksUp at h
    dsimp only
    split <;> simp_all
  | _ => simp

end Session

namespace Goal

variable (goal : Goal)

/-- When a goal on attributes is met, as the sources of conditions have it. -/
def attributeMetAt (reader : Reader) (anchor now : Instant) : Option Instant :=
  if (goal.windowEnd? anchor).any (· ≤ now) then none
  else if goal.expression.any (·.holds reader) then some now
  else none

variable {goal} {host : Host}

theorem metAt_attribute (h : goal.kind = .attribute) (user : String) (anchor now : Instant) :
    goal.metAt host user anchor now =
      goal.attributeMetAt (host.reader user now none) anchor now := by
  simp only [metAt, holdsNow, h, attributeMetAt]

theorem metAt_segment_of_fails (hf : host.fails .segments)
    (hk : goal.kind = .segmentEnter ∨ goal.kind = .segmentLeave) (user : String)
    (anchor now : Instant) : goal.metAt host user anchor now = none := by
  have hn : goal.holdsNow host user now = false := by
    unfold holdsNow
    rcases hk with hk | hk <;> rw [hk] <;> cases goal.segment with
    | none => rfl
    | some segment =>
      obtain ⟨fault, hs⟩ := host.inSegment_of_fails hf segment
      simp [hs, Except.toOption]
  unfold metAt
  rcases hk with hk | hk <;> simp [hk, hn]

theorem metAt_event_of_fails (hf : host.fails .first) (hk : goal.kind = .event) (user : String)
    (anchor now : Instant) : goal.metAt host user anchor now = none := by
  unfold metAt eventMetAt
  rw [hk]
  cases goal.eventName with
  | none => rfl
  | some name =>
    obtain ⟨fault, ht⟩ := host.firstTime_of_fails hf name user (some anchor)
      (goal.windowEnd? anchor)
    simp [ht, Except.toOption]

end Goal

/-! ## Failures of one host -/

/-- The services of a host that fail are taken for services without data. -/
structure TakesFailuresAsMissing (host : Host) : Prop where
  evaluation : ∀ (env : Envelope) (user : String) (now : Instant) (event : Option Json.Fields),
    env.evaluate (host.reader user now event) =
      env.evaluate ((host.spared user).reader now event)
  /-- Branches and waits. -/
  step : ∀ (node : Node) (journey : Journey) (ctx : StepContext) (result : StepResult),
    Step.decision? node journey ((host.spared journey.distinctId).reader ctx.now none) ctx =
      some result →
    Step.execute host node journey ctx = (host, .finished result)
  trigger : ∀ (e : Engine) (task : Task) (campaign : String) (condition : Envelope)
    (user : String) (properties : Json.Fields) (origin : Option Origin) (now : Instant),
    e.host = host → task.job = .trigger campaign condition user properties origin now →
    Session.outcome? e task = some (.trigger task.id campaign user origin
      (condition.holds ((host.spared user).reader now (some properties))))
  attributeGoal : ∀ (goal : Goal) (user : String) (anchor now : Instant), goal.kind = .attribute →
    goal.metAt host user anchor now =
      goal.attributeMetAt ((host.spared user).reader now none) anchor now
  segmentGoal : ∀ (goal : Goal) (user : String) (anchor now : Instant), host.fails .segments →
    goal.kind = .segmentEnter ∨ goal.kind = .segmentLeave →
    goal.metAt host user anchor now = none
  eventGoal : ∀ (goal : Goal) (user : String) (anchor now : Instant), host.fails .first →
    goal.kind = .event → goal.metAt host user anchor now = none
  /-- A step that ends its journey as errored would do so without the failures too. -/
  errored : ∀ (flight : Flight) (message : String),
    (Session.stage host flight).2 = .finished (.complete (.errored message)) →
    (Session.stage host.repaired flight).2 = .finished (.complete (.errored message))

theorem failures_taken_as_missing (host : Host) : TakesFailuresAsMissing host where
  evaluation env user now event := by rw [host.reader_spared]
  step node journey ctx result h := by
    rw [← host.reader_spared] at h
    exact Step.execute_of_decision host node journey h
  trigger e task campaign condition user properties origin now he hj := by
    simp only [Session.outcome?, hj, he, host.reader_spared]
  attributeGoal goal user anchor now hk := by rw [Goal.metAt_attribute hk, host.reader_spared]
  segmentGoal goal user anchor now hf hk := Goal.metAt_segment_of_fails hf hk user anchor now
  eventGoal goal user anchor now hf hk := Goal.metAt_event_of_fails hf hk user anchor now
  errored flight message h := by
    cases hl : Step.looksUp flight.node with
    | true => exact absurd h (Session.stage_ne_errored host flight hl message)
    | false =>
      rw [Session.stage_repaired host flight hl]
      exact h

/-- Who is in no segment has left it, unless that cannot be found out. -/
example (host : Host) (user : String) (anchor now : Instant) :
    let left : Goal := ⟨.segmentLeave, none, some "vip", none, none⟩
    let working : Host := { host with segments := [], faults := [] }
    let failing : Host := working.setFault .segments (some .noSurface)
    left.metAt working user anchor now = some now ∧
      left.metAt failing user anchor now = none :=
  ⟨rfl, rfl⟩

end Engagement
