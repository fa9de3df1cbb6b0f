import Mathlib.Data.List.Infix
import Engagement.Proofs.Engine.Checks
import Engagement.Proofs.Session.Progress

/-! # Starts on a trigger

A check of a trigger reports to the engine by the id of its campaign. What it found is about the
campaign that was installed when it was set off, but what is started is the campaign that is installed
when it reports.
-/

namespace Engagement

/-- Whether the message is the report of a job. -/
def Message.ofJob : Message → Bool
  | .report (.profile ..) | .report (.grace _) | .report (.goal ..) | .report (.trigger ..) => true
  | _ => false

namespace Session

open Engine

variable {s : Session} {e : Engine} {snapshot : Snapshot} {id user : String} {origin : Option Origin}
  {task : Nat} {campaign : Campaign}

/-! ## Installed campaigns -/

theorem unique_raise (boots : e.BootsFrom snapshot) : (raise e).engine.campaigns.Unique := by
  rcases boots.campaigns_raise with none | ⟨profile, same⟩
  · simp [none, Table.Unique]
  · exact same ▸ unique_install profile

theorem unique (boots : e.BootsFrom snapshot) (ms : List Move) :
    (after e ms).engine.campaigns.Unique := by
  induction ms using List.reverseRecOn with
  | nil => exact unique_raise boots
  | append_singleton ms m ih =>
    rw [after_snoc]
    rcases (boots.up ms).move_cases m with d | ⟨message, rest, -, changes, -, he, -⟩
    · rw [d.campaigns]
      exact ih
    · rw [he, changes.campaigns_eq]
      exact unique_takeIn ih message

/-- Between two points of a run a message has brought the campaign. -/
def BroughtSince (e : Engine) (prior ms : List Move) (campaign : Campaign) : Prop :=
  ∃ between message, prior <+: between ∧ between ++ [.deliver] <+: ms ∧
    (after e between).mailbox.head? = some message ∧ message.Brings campaign

/-- What is installed under an id was so at any earlier point, or has been brought since. -/
theorem installed_or_brought (boots : e.BootsFrom snapshot) (prior later : List Move)
    (h : (after e (prior ++ later)).engine.campaigns.get? id = some campaign) :
    (after e prior).engine.campaigns.get? id = some campaign ∨
      BroughtSince e prior (prior ++ later) campaign := by
  induction later using List.reverseRecOn with
  | nil => exact .inl (by rwa [List.append_nil] at h)
  | append_singleton later m ih =>
    rw [← List.append_assoc, after_snoc] at h
    rw [← List.append_assoc]
    have later_on : (after e (prior ++ later)).engine.campaigns.get? id = some campaign →
        (after e prior).engine.campaigns.get? id = some campaign ∨
          BroughtSince e prior (prior ++ later ++ [m]) campaign := by
      intro h
      apply (ih h).imp_right
      rintro ⟨between, message, hp, hb, waiting, brings⟩
      exact ⟨between, message, hp, hb.trans (List.prefix_append _ _), waiting, brings⟩
    rcases (boots.up (prior ++ later)).move_cases m with d | ⟨message, rest, hm, changes, rfl, he, -⟩
    · rw [d.campaigns] at h
      exact later_on h
    · rw [he, changes.campaigns_eq] at h
      rcases installed_or_brings h with h | brings
      · exact later_on h
      · exact .inr ⟨prior ++ later, message, List.prefix_append _ _, List.prefix_refl _,
          by rw [hm]; rfl, brings⟩

/-! ## Checks under way -/

/-- The check was set off on a message that had been waiting, for a campaign that was installed then. -/
def Asked (e : Engine) (ms : List Move) (job : Job) : Prop :=
  ∃ prior message campaign, prior ++ [.deliver] <+: ms ∧
    (after e prior).mailbox.head? = some message ∧
    (after e prior).engine.campaigns.get? campaign.id = some campaign ∧
    (after e prior).engine.checkOn? message campaign = some job

theorem Asked.mono {ms ms' : List Move} {job : Job} (h : Asked e ms job) (hp : ms <+: ms') :
    Asked e ms' job := by
  obtain ⟨prior, message, campaign, hd, rest⟩ := h
  exact ⟨prior, message, campaign, hd.trans hp, rest⟩

/-- The check of a task finds that its condition holds. -/
def Finds (s : Session) (task : Nat) (id user : String) (origin : Option Origin) (job : Job) : Prop :=
  ∃ condition properties now, job = .trigger id condition user properties origin now ∧
    (∃ check ∈ s.engine.tasks, check.id = task ∧ check.job = job) ∧
    condition.holds (s.engine.host.reader user now (some properties)) = true

theorem outcome?_eq_trigger {check : Task} {e : Engine}
    (h : outcome? e check = some (.trigger task id user origin true)) :
    check.id = task ∧ ∃ condition properties now,
      check.job = .trigger id condition user properties origin now ∧
        condition.holds (e.host.reader user now (some properties)) = true := by
  unfold outcome? at h
  split at h
  · cases h
  · rename_i condition user properties origin now hjob
    obtain ⟨rfl, rfl, rfl, rfl, holds⟩ := Report.trigger.inj (Option.some.inj h)
    exact ⟨rfl, condition, properties, now, hjob, holds⟩
  · cases h
  · split at h <;> cases h

/-- Work goes on as a step, as a job that reports, or not at all. -/
theorem run_jobs (s : Session) (task : Nat) :
    (∀ t ∈ (s.run task).engine.tasks, ∃ t' ∈ s.engine.tasks, t'.job = t.job) ∧
    ∀ message ∈ (s.run task).mailbox, message ∈ s.mailbox ∨
      (∃ t id node result, message = .report (.step t id node result)) ∨
      ∃ check ∈ s.engine.tasks, check.id = task ∧ ∃ report,
        outcome? s.engine check = some report ∧ message = .report report := by
  unfold run
  split
  · rename_i f _ _
    constructor
    · rw [runFlight_engine]
      exact fun t ht => ⟨t, ht, rfl⟩
    · rw [runFlight_mailbox]
      intro message hm
      rcases List.mem_append.mp hm with hm | hm
      · exact .inl hm
      · split at hm
        · exact .inr (.inl ⟨_, _, _, _, List.mem_singleton.mp hm⟩)
        · cases hm
  · rename_i check hf hc
    have hm : check ∈ s.engine.tasks := List.mem_of_find?_eq_some hc
    have hid : check.id = task := by simpa using List.find?_some hc
    split
    · exact ⟨fun t ht => ⟨t, ht, rfl⟩, fun _ => .inl⟩
    · unfold runTask
      split
      · exact ⟨fun t ht => ⟨t, ht, rfl⟩, fun _ => .inl⟩
      · rename_i report ho
        constructor
        · intro t ht
          obtain ⟨t', ht', rfl⟩ := List.mem_map.mp ht
          refine ⟨t', ht', ?_⟩
          split <;> rfl
        · intro message hmessage
          rcases List.mem_append.mp hmessage with hmessage | hmessage
          · exact .inl hmessage
          · exact .inr (.inr ⟨check, hm, hid, report, ho, List.mem_singleton.mp hmessage⟩)
  · exact ⟨fun t ht => ⟨t, ht, rfl⟩, fun _ => .inl⟩

/-- Between two messages jobs are not set off but report, each what it finds. -/
theorem move_jobs (s : Session) {m : Move} (hm : m ≠ .deliver) :
    (∀ t ∈ (s.move m).engine.tasks, ∃ t' ∈ s.engine.tasks, t'.job = t.job) ∧
    ∀ message ∈ (s.move m).mailbox, message.ofJob = true → message ∈ s.mailbox ∨
      ∃ check ∈ s.engine.tasks, m = .work check.id ∧ ∃ report,
        outcome? s.engine check = some report ∧ message = .report report := by
  have kept : ∀ {s' : Session}, s'.engine.tasks = s.engine.tasks →
      ∀ t ∈ s'.engine.tasks, ∃ t' ∈ s.engine.tasks, t'.job = t.job :=
    fun same t ht => ⟨t, same ▸ ht, rfl⟩
  cases m with
  | deliver => exact (hm rfl).elim
  | work n =>
    obtain ⟨tasks, mail⟩ := s.run_jobs n
    refine ⟨tasks, fun message h of_job => ?_⟩
    rcases mail _ h with h | ⟨t, i, node, result, rfl⟩ | ⟨check, hc, rfl, found⟩
    · exact .inl h
    · cases of_job
    · exact .inr ⟨check, hc, rfl, found⟩
  | send c =>
    by_cases hc : c = .boot
    · exact hc ▸ ⟨kept rfl, fun _ h _ => .inl h⟩
    · rw [move_send s hc, send]
      split
      · refine ⟨kept rfl, fun message h of_job => ?_⟩
        rcases List.mem_append.mp h with h | h
        · exact .inl h
        · obtain rfl := List.mem_singleton.mp h
          cases of_job
      · exact ⟨kept rfl, fun _ h _ => .inl h⟩
  | fire timer =>
    refine ⟨kept rfl, fun message h of_job => ?_⟩
    rcases List.mem_append.mp h with h | h
    · exact .inl h
    · obtain rfl := List.mem_singleton.mp h
      cases of_job
  | release gate =>
    unfold move release
    dsimp only
    split <;> exact ⟨kept rfl, fun _ h _ => .inl h⟩
  | _ => exact ⟨kept rfl, fun _ h _ => .inl h⟩

theorem move_checks (s : Session) {m : Move} (hm : m ≠ .deliver)
    (h : .report (.trigger task id user origin true) ∈ (s.move m).mailbox) :
    .report (.trigger task id user origin true) ∈ s.mailbox ∨
      m = .work task ∧ ∃ job, s.Finds task id user origin job := by
  rcases (s.move_jobs hm).2 _ h rfl with h | ⟨check, hc, rfl, report, ho, h⟩
  · exact .inl h
  · obtain rfl := Message.report.inj h
    obtain ⟨rfl, condition, properties, now, hjob, holds⟩ := outcome?_eq_trigger ho
    exact .inr ⟨rfl, check.job, condition, properties, now, hjob, ⟨check, hc, rfl, rfl⟩, holds⟩

/-- A check that was set off earlier has found, when it was run, that its condition holds. -/
def Found (e : Engine) (ms : List Move) (task : Nat) (id user : String) (origin : Option Origin) :
    Prop :=
  ∃ mid job, mid ++ [.work task] <+: ms ∧ Asked e mid job ∧
    (after e mid).Finds task id user origin job

theorem Found.snoc {ms : List Move} (h : Found e ms task id user origin) (m : Move) :
    Found e (ms ++ [m]) task id user origin := by
  obtain ⟨mid, job, hw, rest⟩ := h
  exact ⟨mid, job, hw.trans (List.prefix_append _ _), rest⟩

/-- Checks under way were set off, and those that wait with a report have found what it says. -/
structure Traced (e : Engine) (ms : List Move) (s : Session) : Prop where
  tasks : ∀ t ∈ s.engine.tasks, t.job.checksTrigger = true → Asked e ms t.job
  mail : ∀ task id user origin, .report (.trigger task id user origin true) ∈ s.mailbox →
    Found e ms task id user origin

theorem traced_raise (boots : e.BootsFrom snapshot) : Traced e [] (raise e) := by
  constructor
  · intro t ht checks
    obtain ⟨campaigns, loaded, hg⟩ := e.greeted_eq
    have none : e.tasks = [] := (congrArg Engine.tasks boots.down).symm
    rcases boots.calms_raise.tasks_cases ht with ht | plain
    · simp [hg, none] at ht
    · simp [checks] at plain
  · intro task id user origin h
    cases h

theorem traced (boots : e.BootsFrom snapshot) (ms : List Move) : Traced e ms (after e ms) := by
  induction ms using List.reverseRecOn with
  | nil => exact traced_raise boots
  | append_singleton ms m ih =>
    have asked_on : ∀ {job}, Asked e ms job → Asked e (ms ++ [m]) job :=
      fun h => h.mono (List.prefix_append _ _)
    rw [after_snoc]
    by_cases hd : m = .deliver
    · subst hd
      rcases hm : (after e ms).mailbox with _ | ⟨message, rest⟩
      · rw [move_deliver_of_empty hm]
        exact ⟨fun t ht checks => asked_on (ih.tasks t ht checks),
          fun task id user origin h => (ih.mail task id user origin h).snoc _⟩
      · have up := boots.up ms
        obtain ⟨keyed, minded⟩ := mindful boots ms
        constructor
        · intro t ht checks
          rw [move, deliver_engine hm] at ht
          rcases tasks_handle up.sound keyed minded (unique boots ms) (up.first_ne hm) ht checks with
            ht | ⟨campaign, installed, asked⟩
          · exact asked_on (ih.tasks t ht checks)
          · exact ⟨ms, message, campaign, List.prefix_refl _, by rw [hm]; rfl, installed, asked⟩
        · intro task id user origin h
          rw [move, deliver_mailbox hm] at h
          exact (ih.mail task id user origin (hm ▸ List.mem_cons_of_mem _ h)).snoc _
    · have tasks := ((after e ms).move_jobs hd).1
      constructor
      · intro t ht checks
        obtain ⟨t', ht', hjob⟩ := tasks t ht
        exact hjob ▸ asked_on (ih.tasks t' ht' (hjob ▸ checks))
      · intro task id user origin h
        rcases (after e ms).move_checks hd h with h | ⟨rfl, job, finds⟩
        · exact (ih.mail task id user origin h).snoc _
        · obtain ⟨condition, properties, now, hjob, ⟨check, hc, hid, hcheck⟩, holds⟩ := finds
          refine ⟨ms, job, List.prefix_refl _, ?_, condition, properties, now, hjob,
            ⟨check, hc, hid, hcheck⟩, holds⟩
          exact hcheck ▸ ih.tasks check hc (by rw [hcheck, hjob]; rfl)

/-- When a check of a trigger starts a journey, it was set off for a campaign that was installed under
the id, on a message that this campaign's trigger matches, and has found that the trigger's condition
holds. The journey is one of the campaign that is installed under the id by now: of the same, or of
another that a message has brought since. -/
theorem trigger_starts_installed (boots : e.BootsFrom snapshot) (ms : List Move) {holds : Bool}
    {a : Admission}
    (waiting : (after e ms).mailbox.head? = some (.report (.trigger task id user origin holds)))
    (started : a ∈ (after e ms).engine.admissions (.report (.trigger task id user origin holds))) :
    ∃ prior mid message campaign condition properties now,
      prior ++ [.deliver] <+: mid ∧ mid ++ [.work task] <+: ms ∧
      (after e prior).mailbox.head? = some message ∧
      (after e prior).engine.campaigns.get? id = some campaign ∧
      (after e prior).engine.checkOn? message campaign =
        some (.trigger id condition user properties origin now) ∧
      (∃ check ∈ (after e mid).engine.tasks,
        check.id = task ∧ check.job = .trigger id condition user properties origin now) ∧
      condition.holds ((after e mid).engine.host.reader user now (some properties)) = true ∧
      ∃ present, (after e ms).engine.campaigns.get? id = some present ∧
        a.journey = (after e ms).engine.newcomer present user origin ∧
        (present = campaign ∨ BroughtSince e (prior ++ [.deliver]) ms present) := by
  obtain ⟨rfl, present, here, journey⟩ := admitted_on_trigger started
  obtain ⟨mid, job, worked, asked, found⟩ :=
    (traced boots ms).mail task id user origin (List.mem_of_mem_head? waiting)
  obtain ⟨prior, message, campaign, handled, waited, installed, asked⟩ := asked
  obtain ⟨condition, properties, now, rfl, check, holds⟩ := found
  obtain rfl := checkOn?_campaign asked
  refine ⟨prior, mid, message, campaign, condition, properties, now, handled, worked, waited,
    installed, asked, check, holds, present, here, journey, ?_⟩
  obtain ⟨later, rfl⟩ := handled.trans ((List.prefix_append _ _).trans worked)
  refine (installed_or_brought boots (prior ++ [.deliver]) later here).imp_left fun same => ?_
  have up := boots.up prior
  have once : message ≠ .command .boot := fun h => up.once (h ▸ List.mem_of_mem_head? waited)
  rw [after_deliver waited, (changes_handle up.sound once).campaigns_eq,
    takeIn_of_checkOn? asked, installed] at same
  exact (Option.some.inj same).symm

/-- A campaign that users enter with a tap. -/
def inviting : Campaign := { Campaign.pausing with
  id := "inviting"
  trigger := .event "tapped" (some ⟨1, .literal (.bool true)⟩) }

/-- The next version, which users do not enter with a tap. -/
def renewed : Campaign := { inviting with version := 2, trigger := .event "opened" none }

/-- While it is checked whether a user may enter with a tap, the campaign is renewed. -/
def tapsBeforeRenewal : List Move :=
  [.send (.start inviting "bob" none), .deliver, .send (.event tap), .deliver,
    .send (.start renewed "cal" none), .deliver, .work 2]

/-- The tapping user is let into the renewed campaign. -/
theorem admitted_after_renewal : ∃ a ∈ (after (inMemory .empty .epoch)
    tapsBeforeRenewal).engine.admissions (.report (.trigger 2 "inviting" "ann" (some tap.origin)
      true)), a.journey.campaignVersion = 2 := by
  have versions : ((after (inMemory .empty .epoch) tapsBeforeRenewal).engine.admissions
      (.report (.trigger 2 "inviting" "ann" (some tap.origin) true))).map
        (·.journey.campaignVersion) = [2] := by decide +kernel
  exact List.mem_map.mp (versions ▸ List.mem_singleton_self 2)

theorem waits_after_renewal : (after (inMemory .empty .epoch) tapsBeforeRenewal).mailbox.head? =
    some (.report (.trigger 2 "inviting" "ann" (some tap.origin) true)) := by
  with_unfolding_all rfl

theorem renewed_starts_on_tap :
    let s := after (inMemory .empty .epoch) tapsBeforeRenewal
    (s.engine.campaigns.get? "inviting").map (fun c => (triggeredBy "tapped" c).isSome) =
      some false ∧
    ∃ a ∈ s.engine.admissions (.report (.trigger 2 "inviting" "ann" (some tap.origin) true)),
      a.journey.campaignVersion = 2 ∧ ∃ prior message campaign condition properties now,
        prior ++ [.deliver] <+: tapsBeforeRenewal ∧
        let asked := after (inMemory .empty .epoch) prior
        asked.mailbox.head? = some message ∧
        asked.engine.campaigns.get? "inviting" = some campaign ∧
        asked.engine.checkOn? message campaign =
          some (.trigger "inviting" condition "ann" properties (some tap.origin) now) := by
  intro s
  obtain ⟨a, ha, version⟩ := admitted_after_renewal
  obtain ⟨prior, mid, message, campaign, condition, properties, now, handled, worked, waited,
    installed, asked, -⟩ := trigger_starts_installed (bootsFrom_inMemory .empty .epoch)
      tapsBeforeRenewal waits_after_renewal ha
  exact ⟨by decide +kernel, a, ha, version, prior, message, campaign, condition, properties, now,
    handled.trans ((List.prefix_append _ _).trans worked), waited, installed, asked⟩

/-- The version of the installed campaign whose trigger the message that waits matches. -/
def matchedVersion? (s : Session) : Option Nat := do
  let message ← s.mailbox.head?
  let campaign ← s.engine.campaigns.get? "inviting"
  (s.engine.checkOn? message campaign).map fun _ => campaign.version

/-- What a check starts is not always what some message has matched. -/
theorem renewed_entered_unmatched :
    ¬ ∀ (e : Engine) (snapshot : Snapshot) (ms : List Move) (task : Nat) (id user : String)
      (origin : Option Origin) (holds : Bool) (a : Admission), e.BootsFrom snapshot →
      (after e ms).mailbox.head? = some (.report (.trigger task id user origin holds)) →
      a ∈ (after e ms).engine.admissions (.report (.trigger task id user origin holds)) →
      ∃ prior message campaign job, prior <+: ms ∧
        (after e prior).mailbox.head? = some message ∧
        (after e prior).engine.campaigns.get? id = some campaign ∧
        (after e prior).engine.checkOn? message campaign = some job ∧
        a.journey = (after e ms).engine.newcomer campaign user origin := by
  intro matched
  obtain ⟨a, ha, version⟩ := admitted_after_renewal
  obtain ⟨prior, message, campaign, job, hp, waited, installed, asked, journey⟩ :=
    matched (inMemory .empty .epoch) .empty tapsBeforeRenewal 2 "inviting" "ann" (some tap.origin)
      true a (bootsFrom_inMemory .empty .epoch) waits_after_renewal ha
  have first : ∀ prior ∈ tapsBeforeRenewal.inits,
      (after (inMemory .empty .epoch) prior).matchedVersion? ∈ [none, some 1] := by decide +kernel
  have old := first prior ((List.mem_inits _ _).mpr hp)
  have found : (after (inMemory .empty .epoch) prior).matchedVersion? = some campaign.version := by
    simp [matchedVersion?, waited, installed, asked]
  have new : campaign.version = 2 := by
    rw [← version, journey]
    rfl
  simp [found, new] at old

end Session

end Engagement
