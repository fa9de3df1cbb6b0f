import Mathlib.Data.List.Induction
import Engagement.Proofs.Session.ComingUp

/-! # Before coming up

An engine that runs takes commands before it has been told to come up, and comes up or fails to when
that is its turn. What holds of every course holds in particular after an engine has come up first.
-/

namespace Engagement

/-- What reaches an engine that runs. -/
inductive Input where
  /-- The engine is told to come up. -/
  | boot
  | move (m : Move)

namespace Engine

variable {e : Engine} {fault : Fault}

theorem sound_new (settings : EngineSettings) (host : Host) (backend : Backend)
    (ids : Nat → JourneyId) : (Engine.new settings host backend ids).Sound :=
  ⟨List.Pairwise.nil, fun _ hj => (List.not_mem_nil hj).elim⟩

/-- An engine that cannot read its storage keeps the journeys that it has. -/
theorem boot_active_of_error (h : e.store.backend.load.2 = .error fault) :
    (e.handle (.command .boot)).store.active = e.store.active := by
  have kept : ∀ e' : Engine, e'.store = e.store → e'.recover.1.store.active = e.store.active := by
    intro e' he
    unfold recover
    rw [he, Store.load]
    rcases hl : e.store.backend.load with ⟨backend, result⟩
    obtain rfl : result = .error fault := by simpa [hl] using h
    rfl
  unfold handle onCommand
  dsimp only
  unfold onBoot
  dsimp only
  split
  · exact kept _ rfl
  · exact kept _ rfl

theorem Sound.boot (sound : e.Sound) : (e.handle (.command .boot)).Sound := by
  rcases h : e.store.backend.load.2 with fault | snapshot
  · have same := boot_active_of_error h
    exact ⟨same ▸ sound.distinct, same ▸ sound.alive⟩
  · exact (sound_greeted h).changes (calms_boot h).changes

end Engine

namespace Session

open Engine

variable {s : Session} {e : Engine} {input : Input} {message : Message}

def take (s : Session) : Input → Session
  | .boot => s.post (.command .boot)
  | .move m => s.move m

/-- An engine that runs and has not been told anything. -/
def opened (e : Engine) : Session := { Session.new e with running := true }

/-- The session that an engine gets to on some inputs. -/
def course (e : Engine) (inputs : List Input) : Session := inputs.foldl take (opened e)

theorem course_snoc (e : Engine) (inputs : List Input) (input : Input) :
    course e (inputs ++ [input]) = (course e inputs).take input := List.foldl_append

theorem moves_eq_foldl_take (s : Session) (ms : List Move) :
    s.moves ms = (ms.map Input.move).foldl take s := by
  rw [List.foldl_map]
  rfl

theorem after_eq_course (e : Engine) (ms : List Move) :
    after e ms = course e (.boot :: .move .deliver :: ms.map .move) :=
  moves_eq_foldl_take (raise e) ms

/-! ## What is handled -/

/-- The message that the engine handles on an input. -/
def handles? (s : Session) : Input → Option Message
  | .move .deliver => s.mailbox.head?
  | _ => none

/-- The messages that the engine handles on some inputs, one after the other. -/
def handled (s : Session) : List Input → List Message
  | [] => []
  | input :: inputs => (s.handles? input).toList ++ (s.take input).handled inputs

theorem handled_snoc (s : Session) (inputs : List Input) (input : Input) :
    s.handled (inputs ++ [input]) =
      s.handled inputs ++ ((inputs.foldl take s).handles? input).toList := by
  induction inputs generalizing s with
  | nil => simp [handled]
  | cons first inputs ih => simp [handled, ih]

/-- On an input the engine handles a message, or else drifts. -/
theorem take_cases (s : Session) (input : Input) :
    (s.handles? input = none ∧ Drift s.engine (s.take input).engine) ∨
      ∃ message, s.handles? input = some message ∧
        (s.take input).engine = s.engine.handle message := by
  cases input with
  | boot => exact .inl ⟨rfl, .refl _⟩
  | move m =>
    by_cases hm : m = .deliver
    · subst hm
      rcases hb : s.mailbox with _ | ⟨message, rest⟩
      · exact .inl ⟨by simp [handles?, hb], by simpa [take, move, deliver, hb] using Drift.refl _⟩
      · exact .inr ⟨message, by simp [handles?, hb], deliver_engine hb⟩
    · refine .inl ⟨?_, s.move_drift hm⟩
      cases m with
      | deliver => exact (hm rfl).elim
      | _ => rfl

theorem sound_course (sound : e.Sound) (inputs : List Input) :
    (course e inputs).engine.Sound := by
  induction inputs using List.reverseRecOn with
  | nil => exact sound
  | append_singleton inputs input ih =>
    rw [course_snoc]
    rcases (course e inputs).take_cases input with ⟨-, d⟩ | ⟨message, -, he⟩
    · exact d.sound ih
    · rw [he]
      by_cases hm : message = .command .boot
      · exact hm ▸ ih.boot
      · exact ((Happens.takeIn _ message).sound ih).changes (changes_handle ih hm)

end Session

end Engagement
