import Engagement.Proofs.Campaign.Graphs
import Engagement.Store.Basic

/-! # The wording of a missing node

A journey whose node is missing ends with a text that says so. Nothing else that ends a journey
reads the same, except that content which is shown may report any text as its error.
-/

namespace Engagement

/-- How a journey ends whose node its campaign lacks. -/
def ExitReason.nodeMissing (node campaign : String) : ExitReason :=
  .errored s!"node {node} not found in campaign {campaign}"

variable {message node campaign : String}

theorem toList_of_nodeMissing (h : .errored message = ExitReason.nodeMissing node campaign) :
    message.toList = "node ".toList ++ node.toList ++ " not found in campaign ".toList ++
      campaign.toList := by
  obtain rfl := ExitReason.errored.inj h
  change ("node " ++ node ++ " not found in campaign " ++ campaign).toList = _
  simp only [String.toList_append]

theorem head_of_nodeMissing (h : .errored message = ExitReason.nodeMissing node campaign) :
    message.toList.head? = some 'n' := by
  rw [toList_of_nodeMissing h]
  simp

theorem endless_ne_nodeMissing (steps : Nat) :
    .errored s!"exceeded {steps} steps without suspending" ≠
      ExitReason.nodeMissing node campaign := by
  intro h
  have first := head_of_nodeMissing h
  change ("exceeded " ++ toString steps ++ " steps without suspending").toList.head? = _ at first
  simp [String.toList_append] at first

/-- A store that refuses to save a journey says that it does. -/
theorem unsaved_ne_nodeMissing {store after : Store} {j : Journey} {fault : Fault}
    (refused : store.save j = (after, .error fault)) :
    .errored fault.message ≠ ExitReason.nodeMissing node campaign := by
  obtain ⟨operation, attempts, last, rfl⟩ : ∃ operation attempts last,
      fault = .writeFailed operation attempts last := by
    unfold Store.save Store.write at refused
    dsimp only at refused
    split at refused
    · cases refused
    · exact ⟨_, _, _, (Except.error.inj (congrArg Prod.snd refused)).symm⟩
  intro h
  have first := head_of_nodeMissing h
  change ("Persistence error: " ++ operation ++ " failed after " ++ toString attempts ++
    " attempts: " ++ last.message).toList.head? = _ at first
  simp [String.toList_append] at first

theorem aborted_ne_nodeMissing :
    .errored "node execution aborted" ≠ ExitReason.nodeMissing node campaign := by
  intro h
  have letter : 'f' ∈ "node execution aborted".toList := by
    rw [toList_of_nodeMissing h]
    simp
  simp at letter

/-! ## Steps -/

/-- The journey does not end as if its node was missing. -/
def StepResult.Present (result : StepResult) : Prop :=
  ∀ node campaign, result ≠ .complete (.nodeMissing node campaign)

namespace Step

variable {host : Host} {place : Node} {j : Journey} {ctx : StepContext}

theorem present_proceedOrEnd (next : Option String) : (StepResult.proceedOrEnd next).Present := by
  cases next <;> simp [StepResult.Present, StepResult.proceedOrEnd, ExitReason.nodeMissing]

theorem present_ofFault {service : String} {first : Char} (fault : HostFault)
    (named : service.toList.head? = some first) (other : first ≠ 'n') :
    (StepResult.ofFault service fault).Present := by
  intro node campaign h
  have head := head_of_nodeMissing (StepResult.complete.inj h)
  change (service ++ " port failure: " ++ fault.message).toList.head? = _ at head
  simp [String.toList_append, named, other] at head

theorem present_change {service : String} {first : Char} {changed : Except HostFault Host}
    {result : StepResult} (named : service.toList.head? = some first) (other : first ≠ 'n')
    (h : (change host place service changed).2 = .finished result) : result.Present := by
  unfold change at h
  split at h
  · exact Progress.finished.inj h ▸ present_proceedOrEnd _
  · exact Progress.finished.inj h ▸ present_ofFault _ named other

theorem present_waitUntil (reader : Reader) (enteredAt now : Instant) (paths : List WaitPath) :
    (waitUntil reader enteredAt now paths).Present := by
  unfold waitUntil
  split
  · simp [StepResult.Present]
  · dsimp only
    split <;> simp [StepResult.Present, ExitReason.nodeMissing]

theorem present_randomBranch (node : String) (arms : List Arm) (j : Journey) :
    (randomBranch node arms j).Present := by
  unfold randomBranch
  split <;> simp [StepResult.Present, ExitReason.nodeMissing]

/-- Executing a node other than one that shows content never reads as if a node was missing. -/
theorem present_execute {result : StepResult} (h : (execute host place j ctx).2 = .finished result)
    (plain : place.action.isShowContent = false) : result.Present := by
  unfold execute at h
  split at h
  case h_1 condition _ =>
    obtain rfl := Progress.finished.inj h
    split <;> simp [StepResult.Present]
  case h_2 flow shows => simp [shows, Action.isShowContent] at plain
  case h_3 paths _ => exact Progress.finished.inj h ▸ present_waitUntil _ _ _ _
  case h_4 arms _ => exact Progress.finished.inj h ▸ present_randomBranch _ _ _
  case h_5 name payload _ =>
    split at h
    · obtain rfl := Progress.finished.inj h
      exact fun _ _ hr => aborted_ne_nodeMissing (StepResult.complete.inj hr)
    · exact present_change (by simp : "host".toList.head? = some 'h') (by decide) h
  case h_6 key value _ =>
    exact present_change (by simp : "identity".toList.head? = some 'i') (by decide) h
  case h_7 name properties _ =>
    split at h
    · obtain rfl := Progress.finished.inj h
      simp [StepResult.Present]
    · exact present_change (by simp : "events".toList.head? = some 'e') (by decide) h
  case h_8 reason _ =>
    obtain rfl := Progress.finished.inj h
    simp [StepResult.Present, ExitReason.nodeMissing]

/-- Only content that is shown may report an error that reads as if a node was missing. -/
theorem Finds.shows_of_nodeMissing
    (h : Finds place j ctx (.complete (.nodeMissing node campaign))) :
    place.action.isShowContent = true := by
  cases h with
  | @atOnce host after _ h =>
    rcases plain : place.action.isShowContent with _ | _
    · exact (present_execute (by rw [h]) plain node campaign rfl).elim
    · rfl
  | closing shows => simp [shows, Action.isShowContent]

end Step

end Engagement
