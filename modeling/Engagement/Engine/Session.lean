import Engagement.Engine.Handle

/-! # Sessions

A session is an engine with the messages that wait for it and the turns to come. Each move is one
of four: handle the first message, take one stage of a step, run a job, or let a timer fire. Moves
are taken in the order in which work became ready. While the engine sits out a pause between two
attempts at a write, other work goes on and messages wait. The pauses over one message are counted
as one, from when the message is handled. Time is skipped only when nothing else is left.
-/

namespace Engagement

/-- Who is next. -/
inductive Turn where
  /-- The engine handles the messages that wait. -/
  | engine
  | task (id : Nat)
  /-- A step begins one turn late, after the checks that were set off before it. -/
  | late (id : Nat)
  /-- The engine sits out a pause for so many milliseconds. Work after the `last` task is set off
  only when the pause is over. -/
  | pause (millis last : Nat)
  deriving DecidableEq

structure Session where
  engine : Engine
  /-- Whether the engine has come up and was not shut down. -/
  running : Bool
  mailbox : List Message
  turns : List Turn

namespace Session

/-- A session whose engine has not come up. -/
def new (engine : Engine) : Session := ⟨engine, false, [], []⟩

variable (s : Session)

/-- Puts a message into the mailbox. -/
def post (message : Message) : Session :=
  { s with
    mailbox := s.mailbox ++ [message]
    turns := if s.turns.contains .engine then s.turns else s.turns ++ [.engine] }

/-! ## Moves -/

/-- The turns of work from after task number `first` up to number `last`. -/
def turnsOf (e : Engine) (first last : Nat) : List Turn :=
  (List.range' (first + 1) (last - first)).map fun id =>
    if e.flights.any (·.task = id) then .late id else .task id

/-- Handles the first message. -/
def deliver : Session :=
  match s.mailbox with
  | [] => s
  | message :: rest =>
    let e := s.engine.handle message
    { s with
      engine := e, mailbox := rest, turns := s.turns ++ turnsOf e s.engine.lastTask e.lastTask }

/-- What a job finds out. A grace period has nothing to say before it is over. -/
def outcome? (e : Engine) (task : Task) : Option Report :=
  match task.job with
  | .goal journey now => some (.goal task.id journey.id (journey.goalMetAt e.host now))
  | .trigger campaign condition user properties origin now =>
    some (.trigger task.id campaign user origin
      (condition.holds (e.host.reader user now (some properties))))
  | .profile requested => some (.profile task.id e.host.fetchProfile requested)
  | .grace due => if due ≤ e.uptime then some (.grace task.id) else none

/-- Runs a job, once. -/
def runTask (task : Task) : Session :=
  match outcome? s.engine task with
  | none => s
  | some report =>
    let mark (t : Task) := if t.id = task.id then { t with reported := true } else t
    { s with engine := { s.engine with tasks := s.engine.tasks.map mark } }.post (.report report)

/-- What one stage makes of the host and of the phase of a step. -/
def stage (host : Host) (flight : Flight) : Host × Phase :=
  match flight.phase with
  | .ready =>
    match Step.execute host flight.node flight.journey flight.context with
    | (host, .finished result) => (host, .finished result)
    | (host, .showing gate result) => (host, .showing gate result)
  | .closing result =>
    match flight.node.action with
    | .showContent flow =>
      let (host, result) := Step.closeContent host flight.node flight.journey flow result
      (host, .finished result)
    | _ => (host, flight.phase)
  | .finished _ => (host, .reported)
  | .showing .. | .reported => (host, flight.phase)

/-- Whether a step goes on by itself. -/
def goesOn : Phase → Bool
  | .ready | .closing _ | .finished _ => true
  | .showing .. | .reported => false

/-- Takes a step one stage further. -/
def runFlight (flight : Flight) : Session :=
  let (host, phase) := stage s.engine.host flight
  let put (f : Flight) := if f.task = flight.task then { f with phase := phase } else f
  let next := { s with engine :=
    { s.engine with host := host, flights := s.engine.flights.map put } }
  match flight.phase with
  | .finished result =>
    next.post (.report (.step flight.task flight.journey.id flight.node.id result))
  | _ => if goesOn phase then { next with turns := next.turns ++ [.task flight.task] } else next

/-- Runs the work of a task number, if it was not abandoned. -/
def run (id : Nat) : Session :=
  match s.engine.flights.find? (·.task = id), s.engine.tasks.find? (·.id = id) with
  | some flight, _ => s.runFlight flight
  | none, some task => if task.reported then s else s.runTask task
  | none, none => s

/-- Lets a timer fire. -/
def fire (timer : Timer) : Session :=
  { s with engine := { s.engine with timers := s.engine.timers.erase timer } }.post
    (.report (.timer timer.journey timer.node))

/-! ## Time -/

/-- Milliseconds for which the engine still sits out a pause. -/
def pausing : Nat :=
  s.turns.foldl (fun total turn => match turn with
    | .pause millis _ => total + millis
    | _ => total) 0

def isPausing : Bool :=
  s.turns.any fun
    | .pause .. => true
    | _ => false

/-- The time in which work other than the engine's sleeps. The engine is ahead of it in a pause: it
has handled a message already as it will have at the end. -/
def runtime : Nat := s.engine.uptime - s.pausing

/-- Wakes what has slept long enough. -/
def wake : Session :=
  let e := s.engine
  let due := (e.timers.filter (·.due ≤ s.runtime)).mergeSort fun a b => decide (a.due ≤ b.due)
  let passed := e.tasks.filter fun task =>
    match task.job with
    | .grace due => due ≤ s.runtime && !task.reported
    | _ => false
  let s := due.foldl fire s
  { s with turns := s.turns ++ passed.map fun task => .task task.id }

/-- When the next sleeper wakes, or the pause is over. -/
def nextDue? : Option Nat :=
  let graces := s.engine.tasks.filterMap fun task =>
    match task.job with
    | .grace due => some due
    | _ => none
  let pauses := if s.isPausing then [s.engine.uptime] else []
  (s.engine.timers.map (·.due) ++ graces ++ pauses).min?

/-- Lets time pass up to a point, beyond pauses. -/
def passUntil (t : Nat) : Session :=
  { s with engine := { s.engine with elapsed := max s.engine.elapsed (t - s.engine.store.waited) } }

/-- Lets time pass up to a point. At the end of a pause the engine goes on. -/
def sleepUntil (t : Nat) : Session :=
  let e := s.engine
  let turns := s.turns.flatMap fun
    | .pause _ last =>
      if t < e.uptime then [.pause (e.uptime - t) last] else .engine :: turnsOf e last e.lastTask
    | turn => [turn]
  { s with turns := turns }.passUntil t

/-! ## Runs -/

/-- The number of the last task that was set off up to a point. -/
def lastBy (e : Engine) (t last : Nat) : Nat :=
  let flights := (e.flights.filter (·.since ≤ t)).map (·.task)
  let tasks := (e.tasks.filter (·.since ≤ t)).map (·.id)
  (flights ++ tasks).foldl max last

/-- Handles the first message. If the engine pauses over it, the next has to wait, as has what is set
off after the pause. -/
def handleNext : Session :=
  let e := s.engine
  let next := s.deliver
  let paused := next.engine.store.waited - e.store.waited
  if paused = 0 then next
  else
    let last := lastBy next.engine e.uptime e.lastTask
    { next with turns :=
        s.turns.filter (· ≠ .engine) ++ turnsOf next.engine e.lastTask last ++
          [.pause paused last] }

/-- Takes the next turn, unless there is none. -/
def step? : Option Session :=
  match s.turns with
  | .engine :: rest =>
    if s.mailbox.isEmpty || s.isPausing then some { s with turns := rest } else some s.handleNext
  | .task id :: rest => some ({ s with turns := rest }.run id)
  | .late id :: rest => some { s with turns := rest ++ [.task id] }
  | .pause millis last :: turn :: rest =>
    some { s with turns := turn :: rest ++ [.pause millis last] }
  | _ =>
    let woken := s.wake
    if woken.turns.length ≤ s.turns.length then none else some woken

/-- The most turns taken between two points in time. -/
def turnLimit : Nat := 10000000

/-- Takes turns, without letting time pass, until there are none or it is over. -/
def exhaust (isOver : Session → Bool) : Nat → Session → Session
  | 0, s => s
  | fuel + 1, s =>
    if isOver s then s
    else match s.step? with
      | some next => exhaust isOver fuel next
      | none => s

/-- Runs what can be run without letting time pass. -/
def rest : Session := s.exhaust (fun _ => false) turnLimit

/-- The most times that time is skipped. -/
def skipLimit : Nat := 200000

/-- Takes turns, letting time pass while there is nothing else to do, until no work is outstanding. -/
def idle : Nat → Session → Session
  | 0, s => s
  | fuel + 1, s =>
    let s := s.rest
    if s.engine.isIdle && !s.isPausing then s
    else match s.nextDue? with
      | some t => idle fuel (s.sleepUntil t)
      | none => s

/-- Runs until idle. -/
def settle : Session := s.idle skipLimit

/-- Whether the engine has given more than `n` answers, and goes on. -/
def hasAnswered (n : Nat) : Bool := n < s.engine.answers.length && !s.isPausing

/-- Takes turns, letting time pass while there is nothing else to do, until there are more than `n`
answers. -/
def waitFor (n : Nat) : Nat → Session → Session
  | 0, s => s
  | fuel + 1, s =>
    let s := s.exhaust (·.hasAnswered n) turnLimit
    if s.hasAnswered n then s
    else match s.nextDue? with
      | some t => waitFor n fuel (s.sleepUntil t)
      | none => s

/-- Runs until there is another answer, and on without letting time pass. -/
def await : Session := (s.waitFor s.engine.answers.length skipLimit).rest

/-! ## Commands -/

/-- Hands a command to the engine. -/
def send (command : Command) : Session × Except Fault Unit :=
  if s.running then (s.post (.command command), .ok ()) else (s, .error .notRunning)

/-- Stops the engine. What it held can still be read. -/
def shutdown : Session := ⟨s.engine.halt, false, [], []⟩

/-- Stops the engine after the messages that wait. -/
def stop : Session := ((List.range s.mailbox.length).foldl (fun s _ => s.deliver) s).shutdown

/-- The answers given since there were `n`. -/
def answersSince (n : Nat) : List Answer := s.engine.answers.drop n

/-- Brings the engine up. An engine that runs already is left as it is; one that cannot load its
journeys is shut down. -/
def boot : Session × Except Fault Unit :=
  if s.running then (s, .ok ())
  else
    let started := ({ s with running := true }.post (.command .boot)).await
    match started.answersSince s.engine.answers.length with
    | .done (.ok ()) :: _ => (started, .ok ())
    | .done (.error fault) :: _ => (started.shutdown, .error fault)
    | _ => (started.shutdown, .error .cancelled)

/-- Starts a journey; none if the campaign may not be entered. -/
def start (campaign : Campaign) (user : String) (origin : Option Origin) :
    Session × Except Fault (Option Journey) :=
  match s.send (.start campaign user origin) with
  | (s, .error fault) => (s, .error fault)
  | (sent, .ok ()) =>
    let s := sent.await
    match s.answersSince sent.engine.answers.length with
    | .started result :: _ => (s, result)
    | _ => (s, .error .cancelled)

/-- Fetches the profile again. -/
def refreshProfile : Session × Except Fault Unit :=
  match s.send .refreshProfile with
  | (s, .error fault) => (s, .error fault)
  | (sent, .ok ()) =>
    let s := sent.await
    match s.answersSince sent.engine.answers.length with
    | .done result :: _ => (s, result)
    | _ => (s, .error .cancelled)

/-- Lets a gate open: the content that waits for it is taken off the screen. -/
def release (gate : String) : Session :=
  let e := s.engine
  match e.flights.find? (fun f => match f.phase with
    | .showing g _ => g = gate
    | _ => false) with
  | none => { s with engine := { e with host :=
      { e.host with presenter := e.host.presenter.release gate } } }
  | some flight =>
    let opened (f : Flight) :=
      match f.phase with
      | .showing _ result => if f.task = flight.task then { f with phase := .closing result } else f
      | _ => f
    { s with
      engine := { e with flights := e.flights.map opened }
      turns := s.turns ++ [.task flight.task] }

/-- An engine set up anew in front of the same host and the same data. -/
def restart : Session :=
  let e := s.shutdown.engine
  .new { e with
    store := { e.store.reopen with waited := e.store.waited } }

end Session

end Engagement
