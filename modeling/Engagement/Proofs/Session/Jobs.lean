import Mathlib.Data.List.Induction
import Engagement.Proofs.Engine.Rechecks
import Engagement.Proofs.Session.Evolution

/-! # Jobs under way

Each job has a number of its own, under which it reports once. Until then nothing takes it away, but
for the end of a grace period. So a check of a goal stays under way until it has something to report.
-/

namespace Engagement

/-- The number of the job that reports. -/
def Message.job? : Message → Option Nat
  | .report (.profile task ..) | .report (.grace task) | .report (.goal task ..)
  | .report (.trigger task ..) => some task
  | _ => none

/-- The job has reported if its number is `n`. -/
def Task.mark (n : Nat) (t : Task) : Task := if t.id = n then { t with reported := true } else t

namespace Task

variable {n : Nat} {t : Task}

@[simp] theorem mark_id : (t.mark n).id = t.id := by
  unfold mark
  split <;> rfl

@[simp] theorem mark_job : (t.mark n).job = t.job := by
  unfold mark
  split <;> rfl

theorem mark_of_ne (h : t.id ≠ n) : t.mark n = t := if_neg h

theorem reported_mark (h : t.id = n ∨ t.reported = true) : (t.mark n).reported = true := by
  unfold mark
  split
  · rfl
  · exact h.resolve_left ‹_›

end Task

namespace Engine

variable {e e' : Engine} {posted more : List Nat} {id : JourneyId} {m : Message} {n : Nat}

/-- Jobs have numbers of their own, those that have posted a report do not report again, and the
number of the grace period is of no other job. -/
structure Booked (posted : List Nat) (e : Engine) : Prop where
  numbered : Numbered 0 e.lastTask (e.tasks.map (·.id))
  reported : ∀ n ∈ posted, n ≤ e.lastTask ∧ ∀ t ∈ e.tasks, t.id = n → t.reported = true
  grace : ∀ g, e.grace = some g → g ≤ e.lastTask ∧
    ∀ t ∈ e.tasks, t.id = g → ∃ due, t.job = .grace due

namespace Booked

theorem mono (booked : Booked posted e) (sub : more ⊆ posted) : Booked more e :=
  ⟨booked.numbered, fun n hn => booked.reported n (sub hn), booked.grace⟩

/-- Jobs may go. -/
theorem of_sublist (booked : Booked posted e) (tasks : e'.tasks.Sublist e.tasks)
    (lastTask : e'.lastTask = e.lastTask) (grace : ∀ g, e'.grace = some g → e.grace = some g) :
    Booked posted e' := by
  constructor
  · rw [lastTask]
    exact booked.numbered.sublist (tasks.map _)
  · rw [lastTask]
    intro n hn
    obtain ⟨le, reported⟩ := booked.reported n hn
    exact ⟨le, fun t ht => reported t (tasks.subset ht)⟩
  · rw [lastTask]
    intro g hg
    obtain ⟨le, job⟩ := booked.grace g (grace g hg)
    exact ⟨le, fun t ht => job t (tasks.subset ht)⟩

theorem works (booked : Booked posted e) (works : Works e e') : Booked posted e' := by
  obtain ⟨fresh, numbered, open_yet, tasks⟩ := works.tasks
  have le := works.lastTask
  have old : ∀ t ∈ e'.tasks, t.id ≤ e.lastTask → t ∈ e.tasks := by
    intro t ht early
    refine (List.mem_append.mp (tasks ▸ ht)).resolve_right fun ht => ?_
    have := numbered.within t.id (List.mem_map_of_mem ht)
    omega
  constructor
  · rw [tasks, List.map_append]
    exact booked.numbered.append numbered (Nat.zero_le _) le
  · intro n hn
    obtain ⟨early, reported⟩ := booked.reported n hn
    exact ⟨Nat.le_trans early le, fun t ht same => reported t (old t ht (same ▸ early)) same⟩
  · rw [works.grace]
    intro g hg
    obtain ⟨early, job⟩ := booked.grace g hg
    exact ⟨Nat.le_trans early le, fun t ht same => job t (old t ht (same ▸ early)) same⟩

theorem heed (booked : Booked posted e) (m : Message) : Booked posted (e.heed m) := by
  have dropped (task : Nat) : Booked posted (e.dropTask task) :=
    booked.of_sublist List.filter_sublist rfl fun _ h => h
  unfold Engine.heed
  split
  · rw [dropGrace_eq]
    exact booked.of_sublist List.filter_sublist rfl (by simp)
  · exact booked.of_sublist (.refl _) rfl fun _ h => h
  · rw [becameActive_eq]
    -- The grace period before has gone, and the number of the next is new.
    have gone : Booked posted e.dropGrace :=
      dropGrace_eq e ▸ booked.of_sublist List.filter_sublist rfl (by simp)
    have begun := gone.works (works_spawn e.dropGrace (.grace (e.uptime + e.settings.grace)))
    rw [dropGrace_eq] at gone begun
    refine ⟨begun.numbered, begun.reported, fun g hg => ?_⟩
    obtain rfl := Option.some.inj hg
    refine ⟨Nat.le_refl _, fun t ht same => ?_⟩
    rcases List.mem_append.mp ht with ht | ht
    · have := (gone.numbered.within t.id (List.mem_map_of_mem ht)).2
      have early : t.id ≤ e.lastTask := this
      omega
    · obtain rfl := List.mem_singleton.mp ht
      exact ⟨_, rfl⟩
  · split
    · exact (dropped _).of_sublist (.refl _) rfl (by simp)
    · exact dropped _
  · exact dropped _
  · exact dropped _
  · exact dropped _
  · exact booked

/-- A job that is under its own number is the one that reports. -/
theorem eq_of_id (booked : Booked posted e) {t u : Task} (ht : t ∈ e.tasks) (hu : u ∈ e.tasks)
    (same : t.id = u.id) : t = u :=
  List.inj_on_of_nodup_map (booked.numbered.ordered.imp Nat.ne_of_lt) ht hu same

theorem mark (booked : Booked posted e) {t : Task} (ht : t ∈ e.tasks) :
    Booked (posted ++ [t.id]) { e with tasks := e.tasks.map (Task.mark t.id) } := by
  constructor
  · simpa [Function.comp_def] using booked.numbered
  · intro n hn
    rcases List.mem_append.mp hn with hn | hn
    · obtain ⟨le, reported⟩ := booked.reported n hn
      refine ⟨le, fun u hu same => ?_⟩
      obtain ⟨v, hv, rfl⟩ := List.mem_map.mp hu
      rw [Task.mark_id] at same
      exact Task.reported_mark (.inr (reported v hv same))
    · obtain rfl := List.mem_singleton.mp hn
      refine ⟨(booked.numbered.within t.id (List.mem_map_of_mem ht)).2, fun u hu same => ?_⟩
      obtain ⟨v, hv, rfl⟩ := List.mem_map.mp hu
      rw [Task.mark_id] at same
      exact Task.reported_mark (.inl same)
  · intro g hg
    obtain ⟨le, job⟩ := booked.grace g hg
    refine ⟨le, fun u hu same => ?_⟩
    obtain ⟨v, hv, rfl⟩ := List.mem_map.mp hu
    rw [Task.mark_id] at same
    rw [Task.mark_job]
    exact job v hv same

end Booked

/-- Jobs that neither report nor are the grace period stay. -/
theorem mem_heed_tasks {t : Task} (ht : t ∈ e.tasks) (silent : m.job? ≠ some t.id)
    (current : e.grace ≠ some t.id) : t ∈ (e.heed m).tasks := by
  have dropped {task : Nat} (other : task ≠ t.id) : t ∈ (e.dropTask task).tasks :=
    List.mem_filter.mpr ⟨ht, by simpa using other.symm⟩
  have kept : t ∈ e.tasks.filter fun t => decide (e.grace ≠ some t.id) :=
    List.mem_filter.mpr ⟨ht, by simpa using current⟩
  unfold heed
  split
  · rw [dropGrace_eq]
    exact kept
  · exact ht
  · rw [becameActive_eq]
    exact List.mem_append_left _ kept
  · have other := dropped fun h => silent (congrArg some h)
    split
    · exact other
    · exact other
  · exact dropped fun h => silent (congrArg some h)
  · exact dropped fun h => silent (congrArg some h)
  · exact dropped fun h => silent (congrArg some h)
  · exact ht

/-- A check that has not reported outlasts the handling of a message. -/
theorem IsChecking.handle (h : e.IsChecking id) (booked : Booked posted e)
    (here : ∀ n, m.job? = some n → n ∈ posted) : (e.handle m).IsChecking id := by
  obtain ⟨t, ht, unreported, j, now, job, hid⟩ := h
  refine IsChecking.works ⟨t, mem_heed_tasks ht (fun same => ?_) fun same => ?_, unreported, j, now,
    job, hid⟩ (works_handle e m)
  · have reported := (booked.reported t.id (here _ same)).2 t ht rfl
    simp [unreported] at reported
  · obtain ⟨due, other⟩ := (booked.grace t.id same).2 t ht rfl
    cases job.symm.trans other

end Engine

namespace Session

open Engine

variable {s : Session} {e : Engine} {id : JourneyId} {m : Move}

/-- The numbers of the jobs whose reports wait. -/
def posted (s : Session) : List Nat := s.mailbox.filterMap Message.job?

theorem outcome?_job {e : Engine} {task : Task} {report : Report}
    (h : outcome? e task = some report) : (Message.report report).job? = some task.id := by
  unfold outcome? at h
  split at h
  · obtain rfl := Option.some.inj h
    rfl
  · obtain rfl := Option.some.inj h
    rfl
  · obtain rfl := Option.some.inj h
    rfl
  · split at h
    · obtain rfl := Option.some.inj h
      rfl
    · cases h

/-- Between two messages more messages may come. One job at most is among those who post, and it
posts what it finds. -/
theorem move_posts (s : Session) (hm : m ≠ .deliver) :
    ∃ news, (s.move m).mailbox = s.mailbox ++ news ∧
      (((s.move m).engine.tasks = s.engine.tasks ∧ ∀ message ∈ news, message.job? = none) ∨
        ∃ check ∈ s.engine.tasks, check.reported = false ∧ ∃ report,
          outcome? s.engine check = some report ∧ news = [.report report] ∧
          (s.move m).engine.tasks = s.engine.tasks.map (Task.mark check.id)) := by
  have silent {s' : Session} (tasks : s'.engine.tasks = s.engine.tasks)
      (mailbox : s'.mailbox = s.mailbox) : ∃ news, s'.mailbox = s.mailbox ++ news ∧
        ((s'.engine.tasks = s.engine.tasks ∧ ∀ message ∈ news, message.job? = none) ∨
          ∃ check ∈ s.engine.tasks, check.reported = false ∧ ∃ report,
            outcome? s.engine check = some report ∧ news = [.report report] ∧
            s'.engine.tasks = s.engine.tasks.map (Task.mark check.id)) :=
    ⟨[], by simpa using mailbox, .inl ⟨tasks, by simp⟩⟩
  cases m with
  | deliver => exact (hm rfl).elim
  | send c =>
    by_cases hc : c = .boot
    · exact hc ▸ silent rfl rfl
    · rw [move_send s hc, send]
      split
      · exact ⟨[.command c], rfl, .inl ⟨rfl, by simp [Message.job?]⟩⟩
      · exact silent rfl rfl
  | work n =>
    rw [move]
    unfold run
    split
    · rename_i f _
      refine ⟨_, runFlight_mailbox s f, .inl ⟨by rw [runFlight_engine], ?_⟩⟩
      split <;> simp [Message.job?]
    · rename_i check _ hc
      split
      · exact silent rfl rfl
      · rename_i unreported
        unfold runTask
        split
        · exact silent rfl rfl
        · rename_i report found
          exact ⟨[.report report], rfl, .inr ⟨check, List.mem_of_find?_eq_some hc,
            by simpa using unreported, report, found, rfl, rfl⟩⟩
    · exact silent rfl rfl
  | fire timer =>
    exact ⟨[.report (.timer timer.journey timer.node)], rfl, .inl ⟨rfl, by simp [Message.job?]⟩⟩
  | release gate =>
    unfold move release
    dsimp only
    split <;> exact silent rfl rfl
  | _ => exact silent rfl rfl

theorem booked_move (booked : Booked s.posted s.engine) (hm : m ≠ .deliver) :
    Booked (s.move m).posted (s.move m).engine := by
  have lastTask := (s.move_drift hm).lastTask
  obtain ⟨-, -, grace⟩ := s.move_screen hm
  have posted {news : List Message} (mailbox : (s.move m).mailbox = s.mailbox ++ news) :
      (s.move m).posted = s.posted ++ news.filterMap Message.job? := by
    simp [Session.posted, mailbox]
  obtain ⟨news, mailbox, ⟨tasks, silent⟩ | ⟨check, hc, -, report, found, rfl, tasks⟩⟩ :=
    s.move_posts hm
  · have none : news.filterMap Message.job? = [] := List.filterMap_eq_nil_iff.mpr silent
    rw [posted mailbox, none, List.append_nil]
    exact booked.of_sublist (tasks ▸ .refl _) lastTask fun g hg => grace ▸ hg
  · have one : [Message.report report].filterMap Message.job? = [check.id] := by
      simp [outcome?_job found]
    rw [posted mailbox, one]
    exact (booked.mark hc).of_sublist (tasks ▸ .refl _) lastTask fun g hg => grace ▸ hg

theorem booked_deliver {message : Message} {rest : List Message}
    (booked : Booked s.posted s.engine) (hm : s.mailbox = message :: rest) :
    Booked s.deliver.posted s.deliver.engine := by
  rw [deliver_engine hm]
  refine ((booked.heed message).works (works_handle s.engine message)).mono ?_
  unfold posted
  rw [deliver_mailbox hm, hm]
  exact List.Sublist.subset (List.Sublist.filterMap _ (List.sublist_cons_self _ _))

/-- In every run jobs have numbers of their own and report once. -/
theorem booked (down : e.halt = e) (ms : List Move) :
    Booked (after e ms).posted (after e ms).engine := by
  induction ms using List.reverseRecOn with
  | nil =>
    have tasks : e.tasks = [] := (congrArg Engine.tasks down).symm
    have grace : e.grace = none := (congrArg Engine.grace down).symm
    have new : Booked [] e := by constructor <;> simp [tasks, grace, Numbered.nil]
    exact new.works (works_handle e (.command .boot))
  | append_singleton ms m ih =>
    rw [after_snoc]
    by_cases hd : m = .deliver
    · subst hd
      rcases hm : (after e ms).mailbox with _ | ⟨message, rest⟩
      · rw [move_deliver_of_empty hm]
        exact ih
      · exact booked_deliver ih hm
    · exact booked_move ih hd

/-! ## Checks of goals -/

theorem isChecking_deliver {message : Message} {rest : List Message}
    (checking : s.engine.IsChecking id) (booked : Booked s.posted s.engine)
    (hm : s.mailbox = message :: rest) : s.deliver.engine.IsChecking id := by
  rw [deliver_engine hm]
  refine checking.handle booked fun n h => ?_
  exact List.mem_filterMap.mpr ⟨message, by simp [hm], h⟩

/-- Between two messages a check stays under way or reports what it finds. -/
theorem isChecking_move (checking : s.engine.IsChecking id) (booked : Booked s.posted s.engine)
    (hm : m ≠ .deliver) : (s.move m).engine.IsChecking id ∨
      ∃ check ∈ s.engine.tasks, ∃ j now, check.job = .goal j now ∧ j.id = id ∧
        .report (.goal check.id id (j.goalMetAt s.engine.host now)) ∈ (s.move m).mailbox := by
  obtain ⟨t, ht, unreported, j, now, job, rfl⟩ := checking
  obtain ⟨news, mailbox, ⟨tasks, -⟩ | ⟨check, hc, -, report, found, rfl, tasks⟩⟩ := s.move_posts hm
  · exact .inl ⟨t, tasks ▸ ht, unreported, j, now, job, rfl⟩
  · by_cases same : t.id = check.id
    · obtain rfl := booked.eq_of_id ht hc same
      refine .inr ⟨t, ht, j, now, job, rfl, ?_⟩
      simp only [outcome?, job, Option.some.injEq] at found
      rw [mailbox, found]
      exact List.mem_append_right _ (List.mem_singleton_self _)
    · refine .inl ⟨t, ?_, unreported, j, now, job, rfl⟩
      rw [tasks]
      exact List.mem_map.mpr ⟨t, ht, Task.mark_of_ne same⟩

end Session

end Engagement
