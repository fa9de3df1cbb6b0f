import Engagement.Engine.Session
import Engagement.Proofs.Engine.Admission
import Engagement.Proofs.Store.Recovery

/-! # Moves in any order

The turns of a session fix one order of its moves. Here every order is allowed: the host may send
commands and change, jobs and steps may go on, and timers may fire, whenever they like; only the
mailbox keeps its order. Every session that is reached by turns is reached by such moves.
-/

namespace Engagement

/-- Storage whose coming writes are refused as listed. Documents are left as they are. -/
def Backend.refusing (refusals : List Bool) : Backend → Backend
  | .memory held _ => .memory held refusals
  | .file document => .file document

theorem Backend.durable_refusing (refusals : List Bool) (b : Backend) :
    (b.refusing refusals).durable = b.durable := by cases b <;> rfl

inductive Move where
  /-- The host sends a command, other than the first. -/
  | send (command : Command)
  /-- The engine handles the message that has waited longest. -/
  | deliver
  /-- A job is run, or a step is taken one stage further. -/
  | work (task : Nat)
  /-- A timer fires, early or late. One that is not set stands for a message that comes twice. -/
  | fire (timer : Timer)
  | release (gate : String)
  /-- The host changes by itself. What it has seen stays. -/
  | host (host : Host)
  | pass (millis : Nat)
  /-- Which of the coming writes will be refused. -/
  | refuse (refusals : List Bool)
  /-- Turns are given anew; no other move heeds them. -/
  | arrange (turns : List Turn)

namespace Session

def move (s : Session) : Move → Session
  | .send .boot => s
  | .send command => (s.send command).1
  | .deliver => s.deliver
  | .work task => s.run task
  | .fire timer => s.fire timer
  | .release gate => s.release gate
  | .host host => { s with
      engine := { s.engine with host := { host with effects := s.engine.host.effects } } }
  | .pass millis => s.passUntil millis
  | .refuse refusals => { s with
      engine := { s.engine with
        store := { s.engine.store with
          backend := s.engine.store.backend.refusing refusals } } }
  | .arrange turns => { s with turns := turns }

/-- A session whose engine has just come up. -/
def raise (e : Engine) : Session :=
  ({ Session.new e with running := true }.post (.command .boot)).deliver

/-- The session after some moves. -/
def moves (s : Session) (ms : List Move) : Session := ms.foldl move s

/-- The session that an engine has got to after coming up and some moves. -/
def after (e : Engine) (ms : List Move) : Session := (raise e).moves ms

theorem move_send (s : Session) {c : Command} (h : c ≠ .boot) :
    s.move (.send c) = (s.send c).1 := by
  cases c with
  | boot => exact (h rfl).elim
  | _ => rfl

@[simp] theorem moves_nil (s : Session) : s.moves [] = s := rfl

@[simp] theorem moves_append (s : Session) (ms ms' : List Move) :
    s.moves (ms ++ ms') = (s.moves ms).moves ms' := List.foldl_append

@[simp] theorem moves_cons (s : Session) (m : Move) (ms : List Move) :
    s.moves (m :: ms) = (s.move m).moves ms := rfl

theorem after_append (e : Engine) (ms ms' : List Move) :
    after e (ms ++ ms') = (after e ms).moves ms' := moves_append _ _ _

theorem after_snoc (e : Engine) (ms : List Move) (m : Move) :
    after e (ms ++ [m]) = (after e ms).move m := after_append e ms [m]

end Session

end Engagement
