import Mathlib.Data.List.Induction
import Mathlib.Data.List.Infix
import Engagement.Proofs.Journey.EventGoals
import Engagement.Proofs.Session.GoalReports

/-! # Occurrences on record

As long as look-ups succeed and nothing recorded is lost, ever more occurrences are on record in a
run, whoever records them. So the earliest occurrence that counts for a journey's goal can only be
replaced by an earlier one.
-/

namespace Engagement

namespace Journey

variable {j k : Journey} {found : List Instant} {t : Option Instant}
  {occurrences more : List Occurrence}

theorem Latches.noLater (h : j.Latches found k) : NoLater k.convertedAt j.convertedAt :=
  fun v hv => h.le (by simp [hv])

theorem Latches.noLater_found (h : j.Latches t.toList k) : NoLater k.convertedAt t :=
  fun v hv => h.le (by simp [hv])

theorem Continues.earliest_eq (h : j.Continues k) : k.earliest = j.earliest := by
  have same : k.qualifies = j.qualifies := by
    unfold qualifies
    rw [h.goal, h.distinctId, h.anchorAt]
  unfold earliest
  rw [same]

end Journey

namespace Host

variable {host host' host'' : Host}

/-- Nothing recorded is lost, look-ups fail as they did, and the clock and the profile stay. -/
structure Records (host host' : Host) : Prop where
  occurrences : host.log.occurrences ⊆ host'.log.occurrences
  offline : host'.log.offline = host.log.offline
  faults : host'.faults = host.faults
  now : host'.now = host.now
  profile : host'.profile = host.profile

namespace Records

theorem of_log (log : host'.log = host.log) (faults : host'.faults = host.faults)
    (now : host'.now = host.now) (profile : host'.profile = host.profile) :
    Records host host' := ⟨log ▸ List.Subset.refl _, congrArg _ log, faults, now, profile⟩

theorem refl (host : Host) : Records host host := .of_log rfl rfl rfl rfl

theorem trans (h : Records host host') (h' : Records host' host'') : Records host host'' :=
  ⟨List.Subset.trans h.occurrences h'.occurrences, h'.offline.trans h.offline,
    h'.faults.trans h.faults, h'.now.trans h.now, h'.profile.trans h.profile⟩

theorem looksUp (h : Records host host') (looksUp : host.LooksUp) : host'.LooksUp := by
  refine ⟨h.offline.trans looksUp.online, ?_⟩
  unfold fault?
  rw [h.faults]
  exact looksUp.first

end Records

theorem records_track {journey : JourneyId} {name : String} {properties : Json.Fields}
    (h : host.track journey name properties = .ok host') : Records host host' := by
  rw [outcomes_guarded h]
  exact ⟨List.subset_append_left _ _, rfl, rfl, rfl, rfl⟩

theorem records_setAttribute {key : String} {value : Json}
    (h : host.setAttribute key value = .ok host') : Records host host' := by
  rw [outcomes_guarded h]
  exact .of_log rfl rfl rfl rfl

end Host

namespace Step

open Host

variable (host : Host) (node : Node) (journey : Journey)

theorem records_conclude (flow : String) (result : Showing) :
    Records host (conclude host node journey flow result).1 := by
  unfold conclude
  split
  · exact .refl host
  · exact .refl host
  · exact .refl host
  · dsimp only
    split
    · exact .of_log rfl rfl rfl rfl
    · exact .of_log rfl rfl rfl rfl
    · unfold trackPurchase
      dsimp only
      split
      · rename_i tracked
        have last := records_track tracked
        exact ⟨last.occurrences, last.offline, last.faults, last.now, last.profile⟩
      · exact .of_log rfl rfl rfl rfl
    · exact .of_log rfl rfl rfl rfl
    · exact .of_log rfl rfl rfl rfl

theorem records_showContent (flow : String) (ctx : StepContext) :
    Records host (showContent host node journey flow ctx).1 := by
  unfold showContent
  split
  · exact .refl host
  · have shown (cue : Cue) (presenter : Presenter) : Records host (if cue.gate.isSome then
        { host with presenter := presenter }.note journey.id (.showing flow)
        else { host with presenter := presenter }) := by
      split <;> exact .of_log rfl rfl rfl rfl
    dsimp only
    split
    · exact shown _ _
    · exact (shown _ _).trans (records_conclude ..)

theorem records_change (service : String) {changed : Except HostFault Host}
    (h : ∀ after, changed = .ok after → Records host after) :
    Records host (change host node service changed).1 := by
  cases changed with
  | error fault => exact .refl host
  | ok after => exact h after rfl

theorem records_execute (ctx : StepContext) :
    Records host (execute host node journey ctx).1 := by
  unfold execute
  split
  · exact .refl host
  · exact records_showContent ..
  · exact .refl host
  · exact .refl host
  · split
    · exact .refl host
    · exact records_change host node _ fun after h => Except.ok.inj h ▸ .of_log rfl rfl rfl rfl
  · exact records_change host node _ fun after h => records_setAttribute h
  · split
    · exact .refl host
    · exact records_change host node _ fun after h => records_track h
  · exact .refl host

end Step

namespace Session

open Engine Host

theorem records_stage (host : Host) (f : Flight) : Records host (stage host f).1 := by
  unfold stage
  split
  · have executed := Step.records_execute host f.node f.journey f.context
    rcases hx : Step.execute host f.node f.journey f.context with ⟨after, result | ⟨gate, result⟩⟩
    · rwa [hx] at executed
    · rwa [hx] at executed
  · split
    · have closed : Records host { host with presenter := host.presenter.close } :=
        .of_log rfl rfl rfl rfl
      exact closed.trans (Step.records_conclude ..)
    · exact .refl host
  · exact .refl host
  · exact .refl host
  · exact .refl host

/-- Whatever moves, unless it is the host by itself, loses nothing that was recorded. -/
theorem records_move {s : Session} (up : s.Up) {m : Move} (other : ∀ host, m ≠ .host host) :
    Records s.engine.host (s.move m).engine.host := by
  cases m with
  | host host => exact (other host rfl).elim
  | send c =>
    by_cases hc : c = .boot
    · exact hc ▸ .refl _
    · rw [move_send s hc, send]
      split <;> exact .refl _
  | deliver =>
    rcases hm : s.mailbox with _ | ⟨message, rest⟩
    · rw [move_deliver_of_empty hm]
      exact .refl _
    · have changes := changes_handle up.sound (up.first_ne hm)
      rw [move, deliver_engine hm, changes.frame]
      obtain ⟨_, _, _, _, -, taken⟩ := s.engine.takeIn_eq message
      rw [taken]
      exact .of_log rfl rfl rfl rfl
  | work task =>
    rw [move]
    rcases s.run_cases task with ⟨f, -, hr⟩ | ⟨job, report, tasks, -, hr⟩ | hr <;> rw [hr]
    · rw [runFlight_engine]
      exact records_stage _ f
    · exact .refl _
    · exact .refl _
  | release gate =>
    unfold move release
    dsimp only
    split <;> exact .of_log rfl rfl rfl rfl
  | _ => exact .refl _

variable {e : Engine} {snapshot : Snapshot} {ms prior : List Move} {m : Move}

/-- The occurrences on record after some moves. -/
def record (e : Engine) (ms : List Move) : List Occurrence :=
  (after e ms).engine.host.log.occurrences

/-- Look-ups succeed throughout, and the host loses nothing that was recorded. -/
structure Recorded (e : Engine) (ms : List Move) : Prop where
  start : e.host.LooksUp
  goes_on : ∀ prior host, prior ++ [.host host] <+: ms →
    host.LooksUp ∧ record e prior ⊆ host.log.occurrences

namespace Recorded

theorem mono (recorded : Recorded e ms) (hp : prior <+: ms) : Recorded e prior :=
  ⟨recorded.start, fun before host h => recorded.goes_on before host (h.trans hp)⟩

theorem snoc (recorded : Recorded e ms) (other : ∀ host, m = .host host →
    host.LooksUp ∧ record e ms ⊆ host.log.occurrences) : Recorded e (ms ++ [m]) := by
  refine ⟨recorded.start, fun before host h => ?_⟩
  rcases List.prefix_concat_iff.mp h with same | h
  · obtain ⟨rfl, here⟩ := List.append_inj' same rfl
    exact other host (List.cons.inj here).1.symm
  · exact recorded.goes_on before host h

theorem append (recorded : Recorded e ms) {more : List Move}
    (other : ∀ m ∈ more, ∀ host, m ≠ .host host) : Recorded e (ms ++ more) := by
  induction more using List.reverseRecOn with
  | nil => simpa using recorded
  | append_singleton more m ih =>
    rw [← List.append_assoc]
    exact (ih fun m hm => other m (List.mem_append_left _ hm)).snoc
      fun host here => (other m (by simp) host here).elim

theorem host (recorded : Recorded e ms) (host : Host) (looksUp : host.LooksUp)
    (kept : record e ms ⊆ host.log.occurrences) : Recorded e (ms ++ [.host host]) :=
  recorded.snoc fun _ here => Move.host.inj here ▸ ⟨looksUp, kept⟩

theorem step (recorded : Recorded e (ms ++ [m])) (boots : e.BootsFrom snapshot)
    (looksUp : (after e ms).engine.host.LooksUp) :
    (after e (ms ++ [m])).engine.host.LooksUp ∧ record e ms ⊆ record e (ms ++ [m]) := by
  by_cases other : ∀ host, m ≠ .host host
  · have records := records_move (boots.up ms) other
    rw [← after_snoc] at records
    exact ⟨records.looksUp looksUp, records.occurrences⟩
  · obtain ⟨host, rfl⟩ : ∃ host, m = .host host := by simpa using other
    obtain ⟨works, kept⟩ := recorded.goes_on ms host (List.prefix_refl _)
    unfold record
    rw [after_snoc]
    exact ⟨⟨works.online, works.first⟩, kept⟩

/-- Look-ups succeed at every point of the run. -/
theorem looksUp (recorded : Recorded e ms) (boots : e.BootsFrom snapshot) :
    (after e ms).engine.host.LooksUp := by
  induction ms using List.reverseRecOn with
  | nil =>
    have raised : Records e.host (after e []).engine.host := by
      obtain ⟨campaigns, loaded, greeted⟩ := e.greeted_eq
      change Records e.host (raise e).engine.host
      rw [(Calms.changes boots.calms_raise).frame, greeted]
      exact .of_log rfl rfl rfl rfl
    exact raised.looksUp recorded.start
  | append_singleton ms m ih =>
    exact (recorded.step boots (ih (recorded.mono (List.prefix_append _ _)))).1

/-- What is on record stays so. -/
theorem grows (recorded : Recorded e ms) (boots : e.BootsFrom snapshot) (hp : prior <+: ms) :
    record e prior ⊆ record e ms := by
  obtain ⟨later, rfl⟩ := hp
  induction later using List.reverseRecOn with
  | nil => simp
  | append_singleton later m ih =>
    rw [← List.append_assoc] at recorded ⊢
    have before := recorded.mono (List.prefix_append _ _)
    exact List.Subset.trans (ih before) (recorded.step boots (before.looksUp boots)).2

/-- The earliest occurrence that counts for a journey only gets earlier. -/
theorem noLater (recorded : Recorded e ms) (boots : e.BootsFrom snapshot) (hp : prior <+: ms)
    (k : Journey) : NoLater (k.earliest (record e ms)) (k.earliest (record e prior)) :=
  k.noLater_earliest (recorded.grows boots hp)

end Recorded

end Session

end Engagement
