import Engagement.Journey.Basic

/-! # Transitions of a journey

A journey that has not ended admits every transition. What was fixed when it started stays fixed.
-/

namespace Engagement

namespace Journey

variable {j k l : Journey}

/-- `k` is the journey `j` at a later point: what was fixed at the start is the same. -/
structure Continues (j k : Journey) : Prop where
  id : k.id = j.id
  campaignId : k.campaignId = j.campaignId
  campaignVersion : k.campaignVersion = j.campaignVersion
  distinctId : k.distinctId = j.distinctId
  goal : k.goal = j.goal
  exitPolicy : k.exitPolicy = j.exitPolicy
  anchorAt : k.anchorAt = j.anchorAt
  context : k.context = j.context
  originEvent : k.originEvent = j.originEvent
  startedAt : k.startedAt = j.startedAt

theorem Continues.refl (j : Journey) : j.Continues j :=
  ⟨rfl, rfl, rfl, rfl, rfl, rfl, rfl, rfl, rfl, rfl⟩

theorem Continues.trans (h : j.Continues k) (h' : k.Continues l) : j.Continues l where
  id := h'.id.trans h.id
  campaignId := h'.campaignId.trans h.campaignId
  campaignVersion := h'.campaignVersion.trans h.campaignVersion
  distinctId := h'.distinctId.trans h.distinctId
  goal := h'.goal.trans h.goal
  exitPolicy := h'.exitPolicy.trans h.exitPolicy
  anchorAt := h'.anchorAt.trans h.anchorAt
  context := h'.context.trans h.context
  originEvent := h'.originEvent.trans h.originEvent
  startedAt := h'.startedAt.trans h.startedAt

/-- `k` is the journey `j`, but for a conversion recorded since. -/
def Agrees (j k : Journey) : Prop :=
  { j with convertedAt := k.convertedAt, updatedAt := k.updatedAt } = k

theorem Agrees.refl (j : Journey) : j.Agrees j := rfl

theorem Agrees.trans (h : j.Agrees k) (h' : k.Agrees l) : j.Agrees l := by
  unfold Agrees at *
  rw [← h', ← h]

theorem Agrees.id (h : j.Agrees k) : k.id = j.id := by rw [← h]

theorem Agrees.campaignId (h : j.Agrees k) : k.campaignId = j.campaignId := by rw [← h]

theorem Agrees.node (h : j.Agrees k) : k.node = j.node := by rw [← h]

theorem Agrees.enteredAt (h : j.Agrees k) : k.enteredAt = j.enteredAt := by rw [← h]

theorem agrees_convert (j : Journey) (t : Option Instant) (now : Instant) :
    j.Agrees { j with convertedAt := t, updatedAt := now } := rfl

/-! ## Changes of status -/

theorem changeStatus_of_alive (h : j.isTerminal = false) (status : Status) :
    j.changeStatus status = ({ j with status := status }, .ok ()) := by
  have hc : j.status.canBecome status = true := (Status.canBecome_iff _ _).mpr h
  simp [changeStatus, Status.change, hc]

theorem advanceTo_of_alive (h : j.isTerminal = false) (node : String) (now : Instant) :
    j.advanceTo node now = ({ j with
      status := .active, node := node, enteredAt := now, resumeAt := none, updatedAt := now },
      .ok ()) := by
  simp [advanceTo, changeStatus_of_alive h]

theorem park_of_alive (h : j.isTerminal = false) (resumeAt : Option Instant) (now : Instant) :
    j.park resumeAt now =
      ({ j with status := .paused, resumeAt := resumeAt, updatedAt := now }, .ok ()) := by
  simp [park, changeStatus_of_alive h]

/-- A journey as it stands once it has ended. -/
def ended (j : Journey) (reason : ExitReason) (now : Instant) : Journey :=
  { j with
    status := reason.status, resumeAt := none, completedAt := some now, updatedAt := now
    exitReason := some reason }

theorem finish_of_alive (h : j.isTerminal = false) (reason : ExitReason) (now : Instant) :
    j.finish reason now = (j.ended reason now, .ok ()) := by
  simp [finish, changeStatus_of_alive h, ended]

theorem ended_isTerminal (j : Journey) (reason : ExitReason) (now : Instant) :
    (j.ended reason now).isTerminal = true := reason.status_isTerminal

theorem continues_ended (j : Journey) (reason : ExitReason) (now : Instant) :
    j.Continues (j.ended reason now) :=
  ⟨rfl, rfl, rfl, rfl, rfl, rfl, rfl, rfl, rfl, rfl⟩

theorem of_recordConversion {t : Instant} (h : j.recordConversion t = (k, true)) :
    k = { j with convertedAt := some t } := by
  unfold recordConversion at h
  split at h
  · split at h
    · cases congrArg Prod.snd h
    · exact (congrArg Prod.fst h).symm
  · exact (congrArg Prod.fst h).symm

end Journey

end Engagement
