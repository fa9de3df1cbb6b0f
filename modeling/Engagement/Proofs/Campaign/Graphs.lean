import Engagement.Step

/-! # Closed graphs

In an accepted campaign the entry and all successors of nodes are nodes, and whatever a node's
execution comes to, it leads into one of the node's successors, if anywhere.
-/

namespace Engagement

theorem forM_eq_ok {α ε : Type} {f : α → Except ε Unit} {l : List α} (h : l.forM f = .ok ()) :
    ∀ a ∈ l, f a = .ok () := by
  induction l with
  | nil => simp
  | cons a l ih =>
    rcases ha : f a with fault | ⟨⟩
    · simp [ha, bind, Except.bind] at h
    · simp only [List.forM_eq_forM, List.forM_cons, ha, bind, Except.bind] at h
      simpa [ha] using ih h

namespace Campaign

variable {campaign : Campaign} {node : Node} {id : String}

theorem node?_isSome_iff :
    (campaign.node? id).isSome ↔ id ∈ campaign.nodes.map (·.id) := by
  simp [node?, List.find?_isSome]

/-- The entry and all successors of nodes are nodes. -/
structure Closed (campaign : Campaign) : Prop where
  entry : (campaign.node? campaign.entry).isSome
  successors : ∀ node ∈ campaign.nodes, ∀ next ∈ node.successors, (campaign.node? next).isSome

theorem entry_of_checkIds (h : campaign.checkIds = .ok ()) :
    (campaign.node? campaign.entry).isSome := by
  unfold checkIds at h
  dsimp only at h
  split at h
  · cases h
  · split at h
    · rename_i known
      exact node?_isSome_iff.mpr (by simpa using known)
    · cases h

theorem successors_of_checkNode (h : campaign.checkNode node = .ok ()) :
    ∀ next ∈ node.successors, (campaign.node? next).isSome := by
  unfold checkNode at h
  split at h
  · cases h
  · rename_i none
    intro next hn
    rw [List.find?_eq_none] at none
    exact node?_isSome_iff.mpr (by simpa using none next hn)

/-- An accepted campaign has a closed graph. -/
theorem closed_of_validate (h : campaign.validate = .ok ()) : campaign.Closed := by
  unfold validate at h
  rcases ids : campaign.checkIds with fault | ⟨⟩
  · simp [ids, bind, Except.bind] at h
  rcases trigger : campaign.checkTrigger with fault | ⟨⟩
  · simp [ids, trigger, bind, Except.bind] at h
  rcases nodes : campaign.nodes.forM campaign.checkNode with fault | ⟨⟩
  · simp only [ids, trigger, nodes, bind, Except.bind] at h
    cases h
  · exact ⟨entry_of_checkIds ids,
      fun node hn => successors_of_checkNode (forM_eq_ok nodes node hn)⟩

/-- The usable definitions of a list are accepted ones. -/
theorem validate_of_mem_ofRawList {raws : List Json} (h : campaign ∈ (ofRawList raws).1) :
    campaign.validate = .ok () := by
  obtain ⟨result, hr, ho⟩ := List.mem_filterMap.mp h
  obtain ⟨raw, -, rfl⟩ := List.mem_map.mp hr
  unfold ofRaw at ho
  split at ho
  · cases ho
  · rename_i read _
    rcases hv : read.validate with fault | ⟨⟩
    · simp [hv, Except.map, Except.toOption] at ho
    · obtain rfl : read = campaign := by simpa [hv, Except.map, Except.toOption] using ho
      exact hv

end Campaign

namespace StepResult

/-- The node that comes next. -/
def next? : StepResult → Option String
  | .proceed next => some next
  | .skip next => next
  | _ => none

/-- Why the journey ends. -/
def exit? : StepResult → Option ExitReason
  | .skip none => some .completed
  | .complete reason => some reason
  | _ => none

/-- The result leads to a successor of the node, if anywhere. -/
def LeadsFrom (result : StepResult) (node : Node) : Prop :=
  ∀ next, result.next? = some next → next ∈ node.successors

variable {result : StepResult} {node : Node}

theorem leadsFrom_of_next (h : ∀ next, result.next? = some next → next ∈ node.next) :
    result.LeadsFrom node := fun next hn => List.mem_append_left _ (h next hn)

theorem leadsFrom_of_targets (h : ∀ next, result.next? = some next → next ∈ node.action.targets) :
    result.LeadsFrom node := fun next hn => List.mem_append_right _ (h next hn)

theorem leadsFrom_of_none (h : result.next? = none) : result.LeadsFrom node := by
  simp [LeadsFrom, h]

theorem leadsFrom_proceedOrEnd : (proceedOrEnd node.next.head?).LeadsFrom node := by
  apply leadsFrom_of_next
  intro next hn
  rcases hh : node.next.head? with _ | first
  · simp [hh, proceedOrEnd, next?] at hn
  · obtain rfl : first = next := by simpa [hh, proceedOrEnd, next?] using hn
    exact List.mem_of_mem_head? hh

theorem leadsFrom_skip_head : (skip node.next.head?).LeadsFrom node :=
  leadsFrom_of_next fun _ hn => List.mem_of_mem_head? hn

end StepResult

namespace Progress

/-- The result leads to a successor of the node, once there is one. -/
def LeadsFrom (progress : Progress) (node : Node) : Prop :=
  ∀ result, progress = .finished result → result.LeadsFrom node

variable {result : StepResult} {node : Node}

theorem leadsFrom_finished (h : result.LeadsFrom node) : (finished result).LeadsFrom node := by
  rintro _ ⟨⟩
  exact h

theorem leadsFrom_showing {gate : String} {shown : Showing} :
    (showing gate shown).LeadsFrom node := by
  rintro _ ⟨⟩

end Progress

theorem mem_of_chooseArm {roll : Nat} {total : Total} {arms : List Arm} {arm : Arm}
    (h : chooseArm roll total arms = some arm) : arm ∈ arms := by
  induction arms generalizing total with
  | nil => cases h
  | cons first arms ih =>
    unfold chooseArm at h
    dsimp only at h
    split at h
    · simp [Option.some.inj h]
    · exact List.mem_cons_of_mem _ (ih h)

namespace Step

variable {node : Node} {journey : Journey} {ctx : StepContext} {result : StepResult}

/-- What the execution of a node for a journey may come to: at once, or when content that it shows
is taken off the screen. -/
inductive Finds (node : Node) (journey : Journey) (ctx : StepContext) : StepResult → Prop
  | atOnce {host after : Host} {result : StepResult}
      (h : execute host node journey ctx = (after, .finished result)) :
    Finds node journey ctx result
  | closing {host after : Host} {flow : String} {showing : Showing} {result : StepResult}
      (shows : node.action = .showContent flow)
      (h : closeContent host node journey flow showing = (after, result)) :
    Finds node journey ctx result

theorem conclude_leadsFrom (host : Host) (node : Node) (journey : Journey) (flow : String)
    (showing : Showing) : (conclude host node journey flow showing).2.LeadsFrom node := by
  unfold conclude
  split
  · exact StepResult.leadsFrom_of_none rfl
  · exact StepResult.leadsFrom_skip_head
  · exact StepResult.leadsFrom_of_none rfl
  · split
    · exact StepResult.leadsFrom_proceedOrEnd
    · exact StepResult.leadsFrom_proceedOrEnd
    · exact StepResult.leadsFrom_of_none rfl
    · exact StepResult.leadsFrom_of_none rfl
    · exact StepResult.leadsFrom_of_none rfl

theorem showContent_leadsFrom (host : Host) (node : Node) (journey : Journey) (flow : String)
    (ctx : StepContext) : (showContent host node journey flow ctx).2.LeadsFrom node := by
  unfold showContent
  split
  · exact Progress.leadsFrom_finished (StepResult.leadsFrom_of_none rfl)
  · dsimp only
    split
    · exact Progress.leadsFrom_showing
    · exact Progress.leadsFrom_finished (conclude_leadsFrom _ _ _ _ _)

theorem change_leadsFrom (host : Host) (node : Node) (service : String)
    (changed : Except HostFault Host) : (change host node service changed).2.LeadsFrom node := by
  unfold change
  split
  · exact Progress.leadsFrom_finished StepResult.leadsFrom_proceedOrEnd
  · exact Progress.leadsFrom_finished (StepResult.leadsFrom_of_none rfl)

theorem waitUntil_leadsFrom {paths : List WaitPath} (waits : node.action = .waitUntil paths)
    (reader : Reader) (enteredAt now : Instant) :
    (waitUntil reader enteredAt now paths).LeadsFrom node := by
  unfold waitUntil
  split
  · rename_i path hp
    apply StepResult.leadsFrom_of_targets
    intro next hn
    obtain rfl := Option.some.inj hn
    simpa [waits, Action.targets] using ⟨path, List.mem_of_find?_eq_some hp, rfl⟩
  · dsimp only
    split <;> exact StepResult.leadsFrom_of_none rfl

theorem randomBranch_leadsFrom {arms : List Arm} (branches : node.action = .randomBranch arms)
    (journey : Journey) : (randomBranch node.id arms journey).LeadsFrom node := by
  unfold randomBranch
  split
  · rename_i arm ha
    apply StepResult.leadsFrom_of_targets
    intro next hn
    obtain rfl := Option.some.inj hn
    simpa [branches, Action.targets] using ⟨arm, mem_of_chooseArm ha, rfl⟩
  · exact StepResult.leadsFrom_of_none rfl

theorem execute_leadsFrom (host : Host) (node : Node) (journey : Journey) (ctx : StepContext) :
    (execute host node journey ctx).2.LeadsFrom node := by
  unfold execute
  split
  case h_1 condition _ =>
    apply Progress.leadsFrom_finished
    split
    · rename_i next hn
      apply StepResult.leadsFrom_of_next
      rintro _ ⟨⟩
      exact List.mem_of_getElem? hn
    · exact StepResult.leadsFrom_of_none rfl
  case h_2 flow _ => exact showContent_leadsFrom _ _ _ _ _
  case h_3 paths waits => exact Progress.leadsFrom_finished (waitUntil_leadsFrom waits _ _ _)
  case h_4 arms branches => exact Progress.leadsFrom_finished (randomBranch_leadsFrom branches _)
  case h_5 name payload _ =>
    split
    · exact Progress.leadsFrom_finished (StepResult.leadsFrom_of_none rfl)
    · exact change_leadsFrom _ _ _ _
  case h_6 key value _ => exact change_leadsFrom _ _ _ _
  case h_7 name properties _ =>
    split
    · exact Progress.leadsFrom_finished StepResult.leadsFrom_skip_head
    · exact change_leadsFrom _ _ _ _
  case h_8 reason _ => exact Progress.leadsFrom_finished (StepResult.leadsFrom_of_none rfl)

/-- Whatever a node's execution comes to leads to a successor of the node, if anywhere. -/
theorem Finds.leadsFrom (h : Finds node journey ctx result) : result.LeadsFrom node := by
  cases h with
  | @atOnce host _ _ h => exact execute_leadsFrom host node journey ctx result (by rw [h])
  | @closing host _ flow showing _ _ h =>
    have leads := conclude_leadsFrom { host with presenter := host.presenter.close } node journey
      flow showing
    rw [← closeContent, h] at leads
    exact leads

end Step

/-- In an accepted campaign no node leads out of the graph: whatever its execution comes to, the
node that comes next is one of its successors and is found in the campaign. -/
theorem Campaign.leads_within {campaign : Campaign} (accepted : campaign.validate = .ok ())
    {node : Node} (hn : node ∈ campaign.nodes) {journey : Journey} {ctx : StepContext}
    {result : StepResult} (found : Step.Finds node journey ctx result) {next : String}
    (leads : result.next? = some next) :
    next ∈ node.successors ∧ (campaign.node? next).isSome := by
  have mem := found.leadsFrom next leads
  exact ⟨mem, (closed_of_validate accepted).successors node hn next mem⟩

end Engagement
