import Engagement.Proofs.Engine.Work
import Engagement.Proofs.Session.Courses
import Engagement.Proofs.Session.Dismissals

/-! # The screen

Whether content may be shown follows from what the engine has been told so far: the app has never
been left; or it has become active since, and the grace period that began with that came to its end
before another one took its place. The end of a grace period that was cancelled or superseded
counts for nothing, however late it is reported. A step that is set off while nothing may be shown
never shows anything.
-/

namespace Engagement

/-- What bears on the screen. -/
inductive Notice where
  /-- The app entered the background. -/
  | left
  /-- The app became active, and a grace period began. -/
  | returned (grace : Nat)
  | elapsed (grace : Nat)
  deriving DecidableEq

namespace Notice

variable {past : List Notice} {g t : Nat}

def begun? : Notice → Option Nat
  | .returned grace => some grace
  | _ => none

/-- The numbers of the grace periods that have begun, in their order. -/
def begun (past : List Notice) : List Nat := past.filterMap begun?

@[simp] theorem begun_left : begun (past ++ [left]) = begun past := by
  simp [begun, begun?]

@[simp] theorem begun_returned : begun (past ++ [returned g]) = begun past ++ [g] := by
  simp [begun, begun?]

@[simp] theorem begun_elapsed : begun (past ++ [elapsed g]) = begun past := by
  simp [begun, List.filterMap_cons, begun?]

/-- Nothing was left, or a grace period came to its end that had begun after the app was last left
and was the present one still. -/
def Clear (past : List Notice) : Prop :=
  left ∉ past ∨ ∃ a b c g, past = (a ++ returned g :: b) ++ elapsed g :: c ∧
    left ∉ b ∧ left ∉ c ∧ ∀ g', returned g' ∉ b

/-- A grace period has begun. Nothing has cancelled, superseded or ended it since. -/
def Runs (g : Nat) (past : List Notice) : Prop :=
  ∃ a b, past = a ++ returned g :: b ∧ left ∉ b ∧ elapsed g ∉ b ∧ ∀ g', returned g' ∉ b

theorem append_cons_eq_snoc {α : Type} {l a b : List α} {x y : α} :
    l ++ [y] = a ++ x :: b ↔ (a = l ∧ b = [] ∧ x = y) ∨ ∃ b', b = b' ++ [y] ∧ l = a ++ x :: b' := by
  constructor
  · intro h
    rcases List.eq_nil_or_concat b with rfl | ⟨b', z, rfl⟩
    · obtain ⟨rfl, hx⟩ := List.append_inj' h rfl
      exact .inl ⟨rfl, rfl, (List.cons.inj hx).1.symm⟩
    · rw [List.concat_eq_append, ← List.cons_append, ← List.append_assoc] at h
      obtain ⟨rfl, hz⟩ := List.append_inj' h rfl
      exact .inr ⟨b', by rw [List.concat_eq_append, hz], rfl⟩
  · rintro (⟨rfl, rfl, rfl⟩ | ⟨b', rfl, rfl⟩)
    · rfl
    · simp

theorem not_clear_left : ¬ Clear (past ++ [left]) := by
  rintro (h | ⟨a, b, c, g, h, hb, hc, -⟩)
  · simp at h
  · rcases append_cons_eq_snoc.mp h with ⟨-, -, he⟩ | ⟨c', rfl, -⟩
    · cases he
    · simp at hc

theorem clear_returned : Clear (past ++ [returned t]) ↔ Clear past := by
  constructor
  · rintro (h | ⟨a, b, c, g, h, hb, hc, hr⟩)
    · exact .inl fun hm => h (List.mem_append_left _ hm)
    · rcases append_cons_eq_snoc.mp h with ⟨-, -, he⟩ | ⟨c', rfl, rfl⟩
      · cases he
      · exact .inr ⟨a, b, c', g, rfl, hb, fun hm => hc (List.mem_append_left _ hm), hr⟩
  · rintro (h | ⟨a, b, c, g, rfl, hb, hc, hr⟩)
    · exact .inl (by simpa using h)
    · exact .inr ⟨a, b, c ++ [returned t], g, by simp, hb, by simpa using hc, hr⟩

theorem clear_elapsed : Clear (past ++ [elapsed t]) ↔ Clear past ∨ Runs t past := by
  constructor
  · rintro (h | ⟨a, b, c, g, h, hb, hc, hr⟩)
    · exact .inl (.inl fun hm => h (List.mem_append_left _ hm))
    · rcases append_cons_eq_snoc.mp h with ⟨rfl, -, he⟩ | ⟨c', rfl, rfl⟩
      · obtain rfl := elapsed.inj he
        by_cases hm : elapsed g ∈ b
        · obtain ⟨b₁, b₂, rfl⟩ := List.append_of_mem hm
          refine .inl (.inr ⟨a, b₁, b₂, g, by simp, ?_, ?_, ?_⟩)
          · exact fun hm => hb (List.mem_append_left _ hm)
          · exact fun hm => hb (List.mem_append_right _ (List.mem_cons_of_mem _ hm))
          · exact fun g' hm => hr g' (List.mem_append_left _ hm)
        · exact .inr ⟨a, b, rfl, hb, hm, hr⟩
      · exact .inl (.inr ⟨a, b, c', g, rfl, hb, fun hm => hc (List.mem_append_left _ hm), hr⟩)
  · rintro ((h | ⟨a, b, c, g, rfl, hb, hc, hr⟩) | ⟨a, b, rfl, hb, -, hr⟩)
    · exact .inl (by simpa using h)
    · exact .inr ⟨a, b, c ++ [elapsed t], g, by simp, hb, by simpa using hc, hr⟩
    · exact .inr ⟨a, b, [], t, by simp, hb, by simp, hr⟩

theorem not_runs_left : ¬ Runs g (past ++ [left]) := by
  rintro ⟨a, b, h, hb, -⟩
  rcases append_cons_eq_snoc.mp h with ⟨-, -, he⟩ | ⟨b', rfl, -⟩
  · cases he
  · simp at hb

theorem runs_returned : Runs g (past ++ [returned t]) ↔ t = g := by
  constructor
  · rintro ⟨a, b, h, -, -, hr⟩
    rcases append_cons_eq_snoc.mp h with ⟨-, -, he⟩ | ⟨b', rfl, -⟩
    · exact (returned.inj he).symm
    · exact absurd (by simp) (hr t)
  · rintro rfl
    exact ⟨past, [], rfl, by simp, by simp, by simp⟩

theorem runs_elapsed : Runs g (past ++ [elapsed t]) ↔ Runs g past ∧ g ≠ t := by
  constructor
  · rintro ⟨a, b, h, hb, he, hr⟩
    rcases append_cons_eq_snoc.mp h with ⟨-, -, hx⟩ | ⟨b', rfl, rfl⟩
    · cases hx
    · simp only [List.mem_append, List.mem_singleton, not_or] at hb he hr
      refine ⟨⟨a, b', rfl, hb.1, he.1, fun g' => (hr g').1⟩, ?_⟩
      rintro rfl
      exact he.2 rfl
  · rintro ⟨⟨a, b, rfl, hb, he, hr⟩, hne⟩
    exact ⟨a, b ++ [elapsed t], by simp, by simpa using hb, by simpa [he] using hne, by simpa using hr⟩

end Notice

/-- What a message tells about the screen. A grace period that begins gets the next task number. -/
def Message.notice? (next : Nat) : Message → Option Notice
  | .command (.lifecycle .enteredBackground) => some .left
  | .command (.lifecycle .becameActive) => some (.returned next)
  | .report (.grace task) => some (.elapsed task)
  | _ => none

namespace Engine

open Notice

variable {e e' : Engine} {past : List Notice} {m : Message}

/-- The engine knows of the screen what it has been told. -/
structure Screened (past : List Notice) (e : Engine) : Prop where
  ready : e.presentationReady = true ↔ Clear past
  grace : ∀ g, e.grace = some g ↔ Runs g past
  front : e.presentationReady = true ∨ e.grace.isSome = true → e.foreground = true
  ordered : (begun past).Pairwise (· < ·)
  numbered : ∀ g ∈ begun past, g ≤ e.lastTask

namespace Screened

theorem canPresent_iff (h : Screened past e) : e.canPresent = true ↔ Clear past := by
  rw [← h.ready, canPresent, Bool.and_eq_true]
  exact ⟨And.right, fun ready => ⟨h.front (.inl ready), ready⟩⟩

theorem keeps (h : Screened past e) (foreground : e'.foreground = e.foreground)
    (ready : e'.presentationReady = e.presentationReady) (grace : e'.grace = e.grace)
    (lastTask : e.lastTask ≤ e'.lastTask) : Screened past e' where
  ready := ready ▸ h.ready
  grace := grace ▸ h.grace
  front := by
    rw [foreground, ready, grace]
    exact h.front
  ordered := h.ordered
  numbered g hg := Nat.le_trans (h.numbered g hg) lastTask

theorem left (h : Screened past e) :
    Screened (past ++ [.left])
      { e with foreground := false, presentationReady := false, grace := none } where
  ready := by simpa using not_clear_left
  grace g := by simpa using not_runs_left
  front := by simp
  ordered := by simpa using h.ordered
  numbered := by simpa using h.numbered

theorem returned (h : Screened past e) :
    Screened (past ++ [.returned (e.lastTask + 1)]) { e with
      foreground := true, grace := some (e.lastTask + 1), lastTask := e.lastTask + 1 } where
  ready := h.ready.trans clear_returned.symm
  grace g := by simpa using runs_returned.symm
  front := by simp
  ordered := by
    rw [begun_returned]
    refine List.pairwise_append.mpr ⟨h.ordered, List.pairwise_singleton _ _, ?_⟩
    rintro g hg t ht
    rw [List.mem_singleton] at ht
    have := h.numbered g hg
    omega
  numbered g hg := by
    rw [begun_returned, List.mem_append, List.mem_singleton] at hg
    rcases hg with hg | rfl
    · exact Nat.le_succ_of_le (h.numbered g hg)
    · exact Nat.le_refl _

/-- The end of the present grace period lets content be shown: the app has not been left since. -/
theorem elapsed (h : Screened past e) {t : Nat} (current : e.grace = some t) :
    Screened (past ++ [.elapsed t])
      { e with grace := none, presentationReady := e.presentationReady || e.foreground } where
  ready := by
    have front := h.front (.inr (by simp [current]))
    simpa [front] using clear_elapsed.mpr (.inr ((h.grace t).mp current))
  grace g := by
    rw [runs_elapsed, ← h.grace g, current]
    simp [eq_comm]
  front _ := h.front (.inr (by simp [current]))
  ordered := by simpa using h.ordered
  numbered := by simpa using h.numbered

/-- The end of any other grace period counts for nothing. -/
theorem stale (h : Screened past e) {t : Nat} (other : e.grace ≠ some t) :
    Screened (past ++ [.elapsed t]) e where
  ready := by
    have idle : ¬ Runs t past := fun runs => other ((h.grace t).mpr runs)
    rw [clear_elapsed, h.ready]
    simp [idle]
  grace g := by
    rw [runs_elapsed, ← h.grace g]
    constructor
    · rintro current
      refine ⟨current, ?_⟩
      rintro rfl
      exact other current
    · exact And.left
  front := h.front
  ordered := by simpa using h.ordered
  numbered := by simpa using h.numbered

theorem heed (h : Screened past e) (m : Message) :
    Screened (past ++ (m.notice? (e.lastTask + 1)).toList) (e.heed m) := by
  have nothing {e' : Engine} (h' : Screened past e') : Screened (past ++ none.toList) e' :=
    (List.append_nil past).symm ▸ h'
  unfold Engine.heed
  split
  · rw [dropGrace_eq]
    exact h.left.keeps rfl rfl rfl (Nat.le_refl _)
  · exact nothing ⟨h.ready, h.grace, fun _ => rfl, h.ordered, h.numbered⟩
  · rw [becameActive_eq]
    exact h.returned.keeps rfl rfl rfl (Nat.le_refl _)
  · split
    · rename_i current
      exact (h.elapsed current).keeps rfl rfl rfl (Nat.le_refl _)
    · rename_i other
      exact (h.stale other).keeps rfl rfl rfl (Nat.le_refl _)
  · exact nothing (h.keeps rfl rfl rfl (Nat.le_refl _))
  · exact nothing (h.keeps rfl rfl rfl (Nat.le_refl _))
  · exact nothing (h.keeps rfl rfl rfl (Nat.le_refl _))
  · rename_i h₁ h₂ h₃ h₄ _ _ _
    have silent : m.notice? (e.lastTask + 1) = none := by
      unfold Message.notice?
      split
      · exact (h₁ rfl).elim
      · exact (h₃ rfl).elim
      · exact (h₄ _ rfl).elim
      · rfl
    rw [silent]
    exact nothing h

end Screened

/-! ## Steps that were told not to show anything -/

/-- Steps have task numbers in their order, and one that was told not to show anything does not. -/
structure Discreet (e : Engine) : Prop where
  ordered : e.flights.Pairwise (·.task < ·.task)
  numbered : ∀ f ∈ e.flights, f.task ≤ e.lastTask
  unseen : ∀ f ∈ e.flights, f.context.canPresent = false → f.phase.shows = false

namespace Discreet

variable {f g : Flight}

theorem eq_of_task (h : e.Discreet) (hf : f ∈ e.flights) (hg : g ∈ e.flights)
    (same : f.task = g.task) : f = g := by
  have distinct : (e.flights.map (·.task)).Nodup :=
    List.pairwise_map.mpr (h.ordered.imp Nat.ne_of_lt)
  exact List.inj_on_of_nodup_map distinct hf hg same

theorem heed (h : e.Discreet) (m : Message) : (e.heed m).Discreet := by
  have flights := e.heed_flights m
  refine ⟨flights ▸ h.ordered, ?_, flights ▸ h.unseen⟩
  rw [flights]
  exact fun f hf => Nat.le_trans (h.numbered f hf) (e.lastTask_le_heed m)

theorem works (h : e.Discreet) (works : Works e e') : e'.Discreet := by
  obtain ⟨fresh, numbered, told, hs⟩ := works.flights
  have later : ∀ f ∈ fresh, e.lastTask < f.task ∧ f.task ≤ e'.lastTask :=
    fun f hf => numbered.within f.task (List.mem_map_of_mem hf)
  have cases : ∀ f ∈ e'.flights, f ∈ e.flights ∨ f ∈ fresh :=
    fun f hf => List.mem_append.mp (hs.subset hf)
  refine ⟨List.Pairwise.sublist hs (List.pairwise_append.mpr
    ⟨h.ordered, List.pairwise_map.mp numbered.ordered, ?_⟩), ?_, ?_⟩
  · intro f hf g hg
    exact Nat.lt_of_le_of_lt (h.numbered f hf) (later g hg).1
  · rintro f hf
    rcases cases f hf with hf | hf
    · exact Nat.le_trans (h.numbered f hf) works.lastTask
    · exact (later f hf).2
  · rintro f hf blind
    rcases cases f hf with hf | hf
    · exact h.unseen f hf blind
    · rw [(told f hf).1]
      rfl

/-- Steps go on, and those that were told not to show anything go on without showing it. -/
theorem goOn (h : e.Discreet) {go : Flight → Flight} (flights : e'.flights = e.flights.map go)
    (lastTask : e'.lastTask = e.lastTask) (plan : ∀ f, (go f).plan = f.plan)
    (unseen : ∀ f ∈ e.flights, f.context.canPresent = false → (go f).phase.shows = false) :
    e'.Discreet := by
  have task (f : Flight) : (go f).task = f.task := (congrArg Flight.task (plan f) :)
  have context (f : Flight) : (go f).context = f.context :=
    (congrArg Flight.context (plan f) :)
  constructor
  · rw [flights, List.pairwise_map]
    simpa only [task] using h.ordered
  · rw [flights, lastTask]
    intro f hf
    obtain ⟨g, hg, rfl⟩ := List.mem_map.mp hf
    exact task g ▸ h.numbered g hg
  · rw [flights]
    intro f hf blind
    obtain ⟨g, hg, rfl⟩ := List.mem_map.mp hf
    exact unseen g hg (context g ▸ blind)

end Discreet

end Engine

namespace Step

variable (host : Host) (node : Node) (journey : Journey)

theorem change_presenter (service : String) {changed : Except HostFault Host}
    (same : ∀ after, changed = .ok after → after.presenter = host.presenter) :
    (change host node service changed).1.presenter = host.presenter ∧
      ∃ result, (change host node service changed).2 = .finished result := by
  cases changed with
  | error fault => exact ⟨rfl, _, rfl⟩
  | ok after => exact ⟨same after rfl, _, rfl⟩

/-- A step that was told not to show anything comes to a result without the presenter. -/
theorem execute_blind {ctx : StepContext} (blind : ctx.canPresent = false) :
    (execute host node journey ctx).1.presenter = host.presenter ∧
      ∃ result, (execute host node journey ctx).2 = .finished result := by
  unfold execute
  split
  · exact ⟨rfl, _, rfl⟩
  · simp [showContent, blind]
  · exact ⟨rfl, _, rfl⟩
  · exact ⟨rfl, _, rfl⟩
  · split
    · exact ⟨rfl, _, rfl⟩
    · exact change_presenter host node _ fun after h => (Except.ok.inj h) ▸ rfl
  · exact change_presenter host node _ fun after h => Host.outcomes_guarded h ▸ rfl
  · split
    · exact ⟨rfl, _, rfl⟩
    · exact change_presenter host node _ fun after h => Host.outcomes_guarded h ▸ rfl
  · exact ⟨rfl, _, rfl⟩

end Step

namespace Session

open Engine

theorem stage_blind (host : Host) {f : Flight} (blind : f.context.canPresent = false)
    (unseen : f.phase.shows = false) :
    (stage host f).1.presenter = host.presenter ∧ (stage host f).2.shows = false := by
  unfold stage
  cases hp : f.phase with
  | ready =>
    obtain ⟨presenter, result, hr⟩ := Step.execute_blind host f.node f.journey blind
    dsimp only
    generalize Step.execute host f.node f.journey f.context = executed at presenter hr
    obtain ⟨after, progress⟩ := executed
    obtain rfl : progress = .finished result := hr
    exact ⟨presenter, rfl⟩
  | closing result =>
    rw [hp] at unseen
    cases unseen
  | _ => exact ⟨rfl, by simp_all [Phase.shows]⟩

/-! ## Between two messages -/

variable {e : Engine} {past : List Notice} (s : Session)

theorem discreet_move {m : Move} (h : m ≠ .deliver) (discreet : s.engine.Discreet) :
    (s.move m).engine.Discreet := by
  have drift := s.move_drift h
  rcases s.move_cases m with hd | ⟨task, f, -, hf, he⟩ | ⟨idles, -⟩
  · exact (h hd).elim
  · rw [he] at drift ⊢
    have hm := List.mem_of_find?_eq_some hf
    have flights : (s.runFlight f).engine.flights =
        s.engine.flights.map (inPhase f.task (stage s.engine.host f).2) := by rw [runFlight_engine]
    refine discreet.goOn flights drift.lastTask (inPhase_plan _ _) ?_
    rintro g hg blind
    unfold inPhase
    split
    · rename_i same
      obtain rfl := discreet.eq_of_task hg hm same
      exact (stage_blind _ blind (discreet.unseen g hg blind)).2
    · exact discreet.unseen g hg blind
  · obtain ⟨go, flights, idle⟩ := idles.flights
    refine discreet.goOn flights drift.lastTask (fun f => ?_) fun f hf blind => ?_
    · rcases idle f with same | ⟨gate, result, -, closing⟩
      · rw [same]
      · rw [closing]
        rfl
    · have unseen := discreet.unseen f hf blind
      rcases idle f with same | ⟨gate, result, showing, -⟩
      · rwa [same]
      · rw [showing] at unseen
        cases unseen

/-! ## Courses -/

/-- What the engine is told about the screen on some inputs. -/
def notices (s : Session) : List Input → List Notice
  | [] => []
  | input :: inputs =>
    ((s.handles? input).bind (Message.notice? (s.engine.lastTask + 1))).toList ++
      (s.take input).notices inputs

theorem notices_snoc (inputs : List Input) (input : Input) :
    s.notices (inputs ++ [input]) = s.notices inputs ++
      (((inputs.foldl take s).handles? input).bind
        (Message.notice? ((inputs.foldl take s).engine.lastTask + 1))).toList := by
  induction inputs generalizing s with
  | nil => simp [notices]
  | cons first inputs ih => simp [notices, ih]

variable {s}

/-- An input without a message to handle leaves the screen alone. -/
theorem take_silent {input : Input} (silent : s.handles? input = none)
    (screened : Screened past s.engine) (discreet : s.engine.Discreet) :
    Screened past (s.take input).engine ∧ (s.take input).engine.Discreet := by
  cases input with
  | boot => exact ⟨screened, discreet⟩
  | move m =>
    by_cases hm : m = .deliver
    · subst hm
      have same : s.take (.move .deliver) = s := by
        simp [take, move, deliver, List.head?_eq_none_iff.mp silent]
      rw [same]
      exact ⟨screened, discreet⟩
    · obtain ⟨foreground, ready, grace⟩ := s.move_screen hm
      have lastTask := (s.move_drift hm).lastTask
      exact ⟨screened.keeps foreground ready grace (Nat.le_of_eq lastTask.symm),
        s.discreet_move hm discreet⟩

theorem screened_course (down : e.halt = e) (inputs : List Input) :
    Screened ((opened e).notices inputs) (course e inputs).engine ∧
      (course e inputs).engine.Discreet := by
  induction inputs using List.reverseRecOn with
  | nil =>
    have foreground : e.foreground = true := (congrArg Engine.foreground down).symm
    have ready : e.presentationReady = true := (congrArg Engine.presentationReady down).symm
    have grace : e.grace = none := (congrArg Engine.grace down).symm
    have flights : e.flights = [] := (congrArg Engine.flights down).symm
    refine ⟨⟨?_, ?_, ?_, ?_, ?_⟩, ?_, ?_, ?_⟩ <;>
      simp [course, opened, Session.new, notices, foreground, ready, grace, flights,
        Notice.begun, Notice.Clear, Notice.Runs]
  | append_singleton inputs input ih =>
    rw [course_snoc, notices_snoc]
    obtain ⟨screened, discreet⟩ := ih
    change Screened (_ ++ (((course e inputs).handles? input).bind _).toList) _ ∧ _
    rcases (course e inputs).take_cases input with ⟨silent, -⟩ | ⟨message, handles, he⟩
    · rw [silent, Option.bind_none, Option.toList_none, List.append_nil]
      exact take_silent silent screened discreet
    · have works := works_handle (course e inputs).engine message
      rw [handles, he]
      exact ⟨(screened.heed message).keeps works.foreground works.ready works.grace
        works.lastTask, (discreet.heed message).works works⟩

/-- The step was set off on an input. -/
def BegunOn (e : Engine) (before : List Input) (input : Input) (f : Flight) : Prop :=
  (∀ g ∈ (course e before).engine.flights, g.task ≠ f.task) ∧
    ∃ g ∈ (course e (before ++ [input])).engine.flights, g.plan = f.plan

theorem BegunOn.of_plan {before : List Input} {input : Input} {f g : Flight}
    (h : BegunOn e before input g) (same : g.plan = f.plan) : BegunOn e before input f := by
  have task : g.task = f.task := (congrArg Flight.task same :)
  obtain ⟨new, k, hk, hp⟩ := h
  exact ⟨fun i hi => task ▸ new i hi, k, hk, hp.trans same⟩

/-- A step is told whether content may be shown on the input on which it is set off. -/
theorem told_when_begun (down : e.halt = e) (inputs : List Input) {f : Flight}
    (hf : f ∈ (course e inputs).engine.flights) :
    ∃ before input later, inputs = before ++ input :: later ∧ BegunOn e before input f ∧
      f.context.canPresent = (course e (before ++ [input])).engine.canPresent := by
  induction inputs using List.reverseRecOn generalizing f with
  | nil =>
    have flights : e.flights = [] := (congrArg Engine.flights down).symm
    simp [course, opened, Session.new, flights] at hf
  | append_singleton inputs input ih =>
    have old {g : Flight} (hg : g ∈ (course e inputs).engine.flights) (same : g.plan = f.plan) :
        ∃ before first later, inputs ++ [input] = before ++ first :: later ∧
          BegunOn e before first f ∧
          f.context.canPresent = (course e (before ++ [first])).engine.canPresent := by
      obtain ⟨before, first, later, rfl, begun, told⟩ := ih hg
      have context : g.context = f.context := (congrArg Flight.context same :)
      exact ⟨before, first, later ++ [input], by simp, begun.of_plan same, context ▸ told⟩
    rcases (course e inputs).take_cases input with ⟨-, drift⟩ | ⟨message, -, he⟩
    · rw [course_snoc] at hf
      have hm : f.plan ∈ (course e inputs).engine.flights.map Flight.plan :=
        drift.flights ▸ List.mem_map_of_mem hf
      obtain ⟨g, hg, same⟩ := List.mem_map.mp hm
      exact old hg same
    · have discreet := (screened_course down inputs).2
      have works := works_handle (course e inputs).engine message
      obtain ⟨fresh, numbered, told, hs⟩ := works.flights
      have here := hf
      rw [course_snoc, he] at hf
      rcases List.mem_append.mp (hs.subset hf) with hf | hf
      · rw [heed_flights] at hf
        exact old hf rfl
      · refine ⟨inputs, input, [], rfl, ⟨fun g hg => ?_, f, here, rfl⟩, ?_⟩
        · have first := discreet.numbered g hg
          have second := lastTask_le_heed (course e inputs).engine message
          have third := (numbered.within f.task (List.mem_map_of_mem hf)).1
          omega
        · rw [course_snoc, he, works.canPresent_eq]
          exact (told f hf).2

/-- Content may be shown exactly when the screen is clear by what the engine has been told; grace
periods have different numbers. Each step was told so when it was set off, and one that was told
that nothing may be shown shows nothing and never turns to the presenter. -/
theorem shows_on_clear_screen (down : e.halt = e) (inputs : List Input) :
    let past := (opened e).notices inputs
    ((course e inputs).engine.canPresent = true ↔ Notice.Clear past) ∧
      (Notice.begun past).Pairwise (· < ·) ∧
      ∀ f ∈ (course e inputs).engine.flights,
        (∃ before input later, inputs = before ++ input :: later ∧ BegunOn e before input f ∧
          (f.context.canPresent = true ↔
            Notice.Clear ((opened e).notices (before ++ [input])))) ∧
        (f.context.canPresent = false → f.phase.shows = false ∧
          ∀ host, (stage host f).1.presenter = host.presenter ∧
            (stage host f).2.shows = false) := by
  obtain ⟨screened, discreet⟩ := screened_course down inputs
  refine ⟨screened.canPresent_iff, screened.ordered, fun f hf => ⟨?_, fun blind => ?_⟩⟩
  · obtain ⟨before, input, later, split, begun, told⟩ := told_when_begun down inputs hf
    refine ⟨before, input, later, split, begun, ?_⟩
    rw [told]
    exact (screened_course down (before ++ [input])).1.canPresent_iff
  · have unseen := discreet.unseen f hf blind
    exact ⟨unseen, fun host => stage_blind host blind unseen⟩

/-- The app is left and becomes active twice. The end of the first grace period is reported after
the second has begun. -/
def becomesActiveTwice : List Input :=
  .boot :: [.deliver, .send (.lifecycle .enteredBackground), .deliver,
    .send (.lifecycle .becameActive), .deliver, .pass 10000, .send (.lifecycle .becameActive),
    .work 1, .deliver, .deliver].map .move

/-- Content may be shown only after the second grace period. -/
theorem unclear_until_present_grace :
    let inputs := becomesActiveTwice
    let later := inputs ++ [Move.pass 20000, .work 2, .deliver].map .move
    (opened .showroom).notices inputs = [.left, .returned 1, .returned 2, .elapsed 1] ∧
      ¬ Notice.Clear ((opened .showroom).notices inputs) ∧
      Notice.Clear ((opened .showroom).notices later) := by
  intro inputs later
  have dark : (course .showroom inputs).engine.canPresent = false := by decide +kernel
  have light : (course .showroom later).engine.canPresent = true := by decide +kernel
  refine ⟨by decide +kernel, fun clear => ?_, ?_⟩
  · rw [(shows_on_clear_screen rfl inputs).1.mpr clear] at dark
    cases dark
  · exact (shows_on_clear_screen rfl later).1.mp light

end Session

end Engagement
