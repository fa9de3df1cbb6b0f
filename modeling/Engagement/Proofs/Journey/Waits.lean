import Engagement.Step
import Engagement.Proofs.Time.Spans

/-! # Exact waits

A wait goes on from its first path that is ready, in the order they are declared. It ends when no
path can be taken any more, and otherwise suspends until the first instant at which its answer is
another one.
-/

namespace Engagement

namespace WaitPath

variable (path : WaitPath) (enteredAt now : Instant)

/-- The path has a limit, and as much time has passed since the node was entered. A limit whose end
cannot be represented is not reached. -/
def Reached : Prop :=
  ∃ seconds ending, path.limit = some seconds ∧ Span.after? enteredAt seconds = some ending ∧
    ending ≤ now

/-- A path with a condition is ready while the condition is true and the limit not reached; one
without, as soon as its limit is reached, and at once if it has none. -/
def Ready (truth : Envelope → Bool) : Prop :=
  match path.condition with
  | some condition => truth condition ∧ ¬ path.Reached enteredAt now
  | none => path.limit = none ∨ path.Reached enteredAt now

/-- Read by `reader`, the path's condition is as true as `truth` has it. -/
def Tells (truth : Envelope → Bool) (reader : Reader) : Prop :=
  ∀ condition, path.condition = some condition → condition.holds reader = truth condition

variable {path : WaitPath} {enteredAt now t ending : Instant} {truth : Envelope → Bool}
  {reader : Reader}

theorem hasElapsed_iff : path.hasElapsed enteredAt now = true ↔ path.Reached enteredAt now := by
  unfold hasElapsed deadline? Reached
  cases path.limit <;> simp [Option.any_eq_true]

theorem isReady_iff (tells : path.Tells truth reader) :
    path.isReady reader enteredAt now = true ↔ path.Ready enteredAt now truth := by
  unfold isReady Ready
  rcases hc : path.condition with _ | condition
  · simp [hasElapsed_iff]
  · simp [← hasElapsed_iff, tells condition hc, and_comm]

theorem isOpen_iff : path.isOpen enteredAt now = true ↔
    path.condition = none ∨ ¬ path.Reached enteredAt now := by
  simp [isOpen, ← hasElapsed_iff]

theorem Reached.mono (h : path.Reached enteredAt now) (le : now ≤ t) : path.Reached enteredAt t := by
  obtain ⟨seconds, ending, limit, ends, past⟩ := h
  exact ⟨seconds, ending, limit, ends, Std.le_trans past le⟩

/-- A limit is reached at its deadline. -/
theorem reached_iff : path.Reached enteredAt now ↔
    ∃ ending, path.deadline? enteredAt = some ending ∧ ending ≤ now := by
  rw [← hasElapsed_iff, hasElapsed, Option.any_eq_true]
  simp

/-- A path that is open and not ready has its limit ahead of it. -/
theorem not_reached_of_open (opened : path.isOpen enteredAt now = true)
    (unready : ¬ path.Ready enteredAt now truth) : ¬ path.Reached enteredAt now := by
  rcases isOpen_iff.mp opened with unconditional | ahead
  · unfold Ready at unready
    simp only [unconditional, not_or] at unready
    exact unready.2
  · exact ahead

/-- A path that is neither ready nor open stays so. -/
theorem closed_mono (closed : path.isOpen enteredAt now = false) (le : now ≤ t) :
    path.isOpen enteredAt t = false ∧ ¬ path.Ready enteredAt t truth := by
  have shut : path.condition ≠ none ∧ path.Reached enteredAt now := by
    simpa [isOpen, ← hasElapsed_iff, Option.isSome_iff_ne_none] using closed
  have later := shut.2.mono le
  refine ⟨Bool.eq_false_iff.mpr fun h => ?_, fun ready => ?_⟩
  · exact (isOpen_iff.mp h).elim shut.1 (· later)
  · unfold Ready at ready
    split at ready
    · exact ready.2 later
    · exact shut.1 ‹_›

/-- A path that is open and not ready stays so until its limit is reached. -/
theorem open_mono (opened : path.isOpen enteredAt now = true)
    (unready : ¬ path.Ready enteredAt now truth) (ahead : ¬ path.Reached enteredAt t) :
    path.isOpen enteredAt t = true ∧ ¬ path.Ready enteredAt t truth := by
  refine ⟨isOpen_iff.mpr (.inr ahead), fun ready => unready ?_⟩
  unfold Ready at ready ⊢
  split at ready
  · exact ⟨ready.1, not_reached_of_open opened unready⟩
  · exact .inl (ready.resolve_right ahead)

end WaitPath

section Answers

variable {enteredAt now t d ending : Instant} {paths : List WaitPath} {truth : Envelope → Bool}
  {reader : Reader} {deadline : Option Instant}

/-- The wait goes on until the first of the deadlines. -/
theorem foldl_sooner (enteredAt : Instant) (paths : List WaitPath) (start : Option Instant) :
    paths.foldl (fun t path => sooner t (path.deadline? enteredAt)) start =
      (start.toList ++ paths.filterMap (·.deadline? enteredAt)).min? := by
  induction paths generalizing start with
  | nil => cases start <;> rfl
  | cons path paths ih =>
    rw [List.foldl_cons, ih, List.filterMap_cons]
    rcases path.deadline? enteredAt with _ | d <;> cases start <;> rfl

/-- The deadlines ahead, of the paths that are open. -/
def openDeadlines (enteredAt now : Instant) (paths : List WaitPath) : List Instant :=
  (paths.filter (·.isOpen enteredAt now)).filterMap (·.deadline? enteredAt)

theorem waitUntil_of_ready {before after : List WaitPath} {path : WaitPath}
    (tells : ∀ p ∈ before ++ path :: after, p.Tells truth reader)
    (ready : path.Ready enteredAt now truth)
    (unready : ∀ p ∈ before, ¬ p.Ready enteredAt now truth) :
    waitUntil reader enteredAt now (before ++ path :: after) = .proceed path.next := by
  have first : (before ++ path :: after).find? (·.isReady reader enteredAt now) = some path := by
    refine List.find?_eq_some_iff_append.mpr
      ⟨(WaitPath.isReady_iff (tells path (by simp))).mpr ready, before, after, rfl, fun p hp => ?_⟩
    have not : ¬ p.isReady reader enteredAt now = true := fun h =>
      unready p hp ((WaitPath.isReady_iff (tells p (by simp [hp]))).mp h)
    simpa using not
  unfold waitUntil
  rw [first]

theorem waitUntil_of_unready (tells : ∀ p ∈ paths, p.Tells truth reader)
    (unready : ∀ p ∈ paths, ¬ p.Ready enteredAt now truth) :
    waitUntil reader enteredAt now paths =
      if (paths.filter (·.isOpen enteredAt now)).isEmpty then .complete .waitExpired
      else .suspend (openDeadlines enteredAt now paths).min? := by
  have none_ready : paths.find? (·.isReady reader enteredAt now) = none := by
    refine List.find?_eq_none.mpr fun p hp h => unready p hp ?_
    exact (WaitPath.isReady_iff (tells p hp)).mp h
  unfold waitUntil
  rw [none_ready]
  simp only [foldl_sooner]
  rfl

/-- A wait ends once the limits of all its paths are reached, each of which has a condition. -/
theorem waitUntil_of_passed (tells : ∀ p ∈ paths, p.Tells truth reader)
    (passed : ∀ p ∈ paths, p.condition ≠ none ∧ p.Reached enteredAt now) :
    waitUntil reader enteredAt now paths = .complete .waitExpired := by
  have unready : ∀ p ∈ paths, ¬ p.Ready enteredAt now truth := by
    intro p hp ready
    unfold WaitPath.Ready at ready
    split at ready
    · exact ready.2 (passed p hp).2
    · exact (passed p hp).1 ‹_›
  have none_open : paths.filter (·.isOpen enteredAt now) = [] := by
    refine List.filter_eq_nil_iff.mpr fun p hp opened => ?_
    exact (WaitPath.isOpen_iff.mp opened).elim (passed p hp).1 (· (passed p hp).2)
  rw [waitUntil_of_unready tells unready, none_open]
  rfl

/-- A wait suspends while none of its paths is ready and one is open. -/
theorem suspend_of_open (tells : ∀ p ∈ paths, p.Tells truth reader)
    (unready : ∀ p ∈ paths, ¬ p.Ready enteredAt now truth)
    (opened : ∃ p ∈ paths, p.condition = none ∨ ¬ p.Reached enteredAt now) :
    ∃ deadline, waitUntil reader enteredAt now paths = .suspend deadline := by
  obtain ⟨p, hp, opened⟩ := opened
  have some_open : ¬ (paths.filter (·.isOpen enteredAt now)).isEmpty := by
    simpa using ⟨p, hp, WaitPath.isOpen_iff.mpr opened⟩
  rw [waitUntil_of_unready tells unready, if_neg some_open]
  exact ⟨_, rfl⟩

/-- A wait that suspends has no path that is ready, and one that is open. -/
theorem unready_of_suspend (tells : ∀ p ∈ paths, p.Tells truth reader)
    (h : waitUntil reader enteredAt now paths = .suspend deadline) :
    (∀ p ∈ paths, ¬ p.Ready enteredAt now truth) ∧
      (∃ p ∈ paths, p.isOpen enteredAt now = true) ∧
      deadline = (openDeadlines enteredAt now paths).min? := by
  by_cases unready : ∀ p ∈ paths, ¬ p.Ready enteredAt now truth
  · rw [waitUntil_of_unready tells unready] at h
    split at h
    · cases h
    · rename_i some_open
      refine ⟨unready, ?_, (StepResult.suspend.inj h).symm⟩
      simpa using some_open
  · unfold waitUntil at h
    split at h
    · cases h
    · rename_i none_ready
      refine absurd (fun p hp ready => ?_) unready
      exact List.find?_eq_none.mp none_ready p hp ((WaitPath.isReady_iff (tells p hp)).mpr ready)

/-- The deadline of a wait is one of its paths'. -/
theorem deadline_of_suspend (h : waitUntil reader enteredAt now paths = .suspend (some d)) :
    ∃ path ∈ paths, path.deadline? enteredAt = some d := by
  have tells : ∀ p ∈ paths, p.Tells (·.holds reader) reader := fun _ _ _ _ => rfl
  obtain ⟨-, -, first⟩ := unready_of_suspend tells h
  obtain ⟨path, hp, hd⟩ := List.mem_filterMap.mp (List.min?_mem first.symm)
  exact ⟨path, (List.mem_filter.mp hp).1, hd⟩

/-- The deadline of a wait lies ahead. -/
theorem lt_of_suspend (h : waitUntil reader enteredAt now paths = .suspend (some d)) : now < d := by
  have tells : ∀ p ∈ paths, p.Tells (·.holds reader) reader := fun _ _ _ _ => rfl
  obtain ⟨unready, -, first⟩ := unready_of_suspend tells h
  obtain ⟨path, hp, hd⟩ := List.mem_filterMap.mp (List.min?_mem first.symm)
  obtain ⟨member, opened⟩ := List.mem_filter.mp hp
  have ahead := WaitPath.not_reached_of_open opened (unready path member)
  have later : ¬ d ≤ now := fun le => ahead (WaitPath.reached_iff.mpr ⟨d, hd, le⟩)
  exact Std.not_le.mp later

/-- Until its deadline a wait gives the same answer. -/
theorem suspend_mono (tells : ∀ p ∈ paths, p.Tells truth reader) {reader' : Reader}
    (tells' : ∀ p ∈ paths, p.Tells truth reader')
    (h : waitUntil reader enteredAt now paths = .suspend deadline) (le : now ≤ t)
    (before : ∀ d, deadline = some d → t < d) :
    waitUntil reader' enteredAt t paths = .suspend deadline := by
  obtain ⟨unready, ⟨path, hp, opened⟩, rfl⟩ := unready_of_suspend tells h
  have ahead : ∀ p ∈ paths, p.isOpen enteredAt now = true → ¬ p.Reached enteredAt t := by
    intro p hp opened reached
    obtain ⟨ending, ends, past⟩ := WaitPath.reached_iff.mp reached
    have listed : ending ∈ openDeadlines enteredAt now paths :=
      List.mem_filterMap.mpr ⟨p, List.mem_filter.mpr ⟨hp, opened⟩, ends⟩
    obtain ⟨d, hd⟩ := Option.isSome_iff_exists.mp (List.isSome_min?_of_mem listed)
    have least := (List.min?_eq_some_iff.mp hd).2 ending listed
    exact Std.not_le.mpr (before d hd) (Std.le_trans least past)
  have stays : ∀ p ∈ paths, p.isOpen enteredAt t = p.isOpen enteredAt now ∧
      ¬ p.Ready enteredAt t truth := by
    intro p hp
    cases ho : p.isOpen enteredAt now with
    | false => exact WaitPath.closed_mono ho le
    | true => exact WaitPath.open_mono ho (unready p hp) (ahead p hp ho)
  have same : paths.filter (·.isOpen enteredAt t) = paths.filter (·.isOpen enteredAt now) :=
    List.filter_congr fun p hp => (stays p hp).1
  rw [waitUntil_of_unready tells' fun p hp => (stays p hp).2]
  unfold openDeadlines
  rw [same, if_neg]
  simpa using ⟨path, hp, opened⟩

end Answers

namespace Step

theorem execute_of_waits {node : Node} {paths : List WaitPath}
    (waits : node.action = .waitUntil paths) (host : Host) (journey : Journey) (ctx : StepContext) :
    execute host node journey ctx = (host, .finished (waitUntil
      (host.reader journey.distinctId ctx.now none) journey.enteredAt ctx.now paths)) := by
  unfold execute
  rw [waits]

/-- The answer of a wait is exact, whatever is asked of the device meanwhile as long as the
conditions of its paths are as true as they were. -/
theorem wait_exact {node : Node} {paths : List WaitPath} (waits : node.action = .waitUntil paths)
    (journey : Journey) (hosts : Instant → Host) (shows : Instant → Bool) (truth : Envelope → Bool)
    (fixed : ∀ t, ∀ path ∈ paths, path.Tells truth ((hosts t).reader journey.distinctId t none))
    (now : Instant) :
    let answer t := execute (hosts t) node journey ⟨t, shows t⟩
    (∀ before path after, paths = before ++ path :: after →
      path.Ready journey.enteredAt now truth →
      (∀ p ∈ before, ¬ p.Ready journey.enteredAt now truth) →
      answer now = (hosts now, .finished (.proceed path.next))) ∧
    ((∀ p ∈ paths, p.condition ≠ none ∧ p.Reached journey.enteredAt now) →
      answer now = (hosts now, .finished (.complete .waitExpired))) ∧
    ((∀ p ∈ paths, ¬ p.Ready journey.enteredAt now truth) →
      (∃ p ∈ paths, p.condition = none ∨ ¬ p.Reached journey.enteredAt now) →
      ∃ deadline, answer now = (hosts now, .finished (.suspend deadline)) ∧
        (∀ d, deadline = some d → now < d ∧ (answer d).2 ≠ .finished (.suspend deadline)) ∧
        ∀ t, now ≤ t → (∀ d, deadline = some d → t < d) →
          answer t = (hosts t, .finished (.suspend deadline))) := by
  intro answer
  have answer_eq : ∀ t, answer t = (hosts t, .finished (waitUntil
      ((hosts t).reader journey.distinctId t none) journey.enteredAt t paths)) :=
    fun t => execute_of_waits waits ..
  refine ⟨?_, ?_, ?_⟩
  · rintro before path after rfl ready unready
    rw [answer_eq, waitUntil_of_ready (fixed now) ready unready]
  · intro passed
    rw [answer_eq, waitUntil_of_passed (fixed now) passed]
  · intro unready opened
    obtain ⟨deadline, suspends⟩ := suspend_of_open (fixed now) unready opened
    refine ⟨deadline, by rw [answer_eq, suspends], fun d hd => ?_, fun t le before => ?_⟩
    · obtain rfl := hd
      refine ⟨lt_of_suspend suspends, fun same => ?_⟩
      rw [answer_eq] at same
      exact Std.lt_irrefl (lt_of_suspend (Progress.finished.inj same))
    · rw [answer_eq, suspend_mono (fixed now) (fixed t) suspends le before]

/-- A wait for a member of a segment, with two limits. -/
def nudging : Node where
  id := "w"
  next := []
  action := .waitUntil
    [⟨some ⟨1, .inSegment "vip"⟩, some 10, "thanks"⟩, ⟨none, some 60, "nudge"⟩]

def nudgingCampaign : Campaign where
  id := "x"
  name := "x"
  version := 1
  trigger := .event "open" none
  entry := "w"
  nodes := [nudging]
  goal := none
  exitPolicy := .never
  anchor := .journeyStart
  reentry := .once

/-- Nobody enters the segment, so the answer stays for the ten seconds of the first limit. -/
theorem nudging_suspends :
    let host t := Host.new t "ann" .empty
    let tenth : Instant := ⟨10, 0, by decide, by decide, by decide⟩
    let answer t := execute (host t) nudging
      (.start ⟨BitVec.ofNat 128 1⟩ nudgingCampaign "ann" none .epoch) ⟨t, true⟩
    (answer tenth).2 ≠ .finished (.suspend (some tenth)) ∧
      ∀ t, .epoch ≤ t → t < tenth → answer t = (host t, .finished (.suspend (some tenth))) := by
  intro host tenth answer
  let journey := Journey.start ⟨BitVec.ofNat 128 1⟩ nudgingCampaign "ann" none .epoch
  let paths : List WaitPath :=
    [⟨some ⟨1, .inSegment "vip"⟩, some 10, "thanks"⟩, ⟨none, some 60, "nudge"⟩]
  have fixed : ∀ t, ∀ path ∈ paths, path.Tells (fun _ => false)
      ((host t).reader journey.distinctId t none) := by
    intro t path hp condition hc
    simp only [paths, List.mem_cons, List.not_mem_nil, or_false] at hp
    rcases hp with rfl | rfl
    · obtain rfl := Option.some.inj hc
      rfl
    · cases hc
  have unready : ∀ p ∈ paths, ¬ p.Ready journey.enteredAt .epoch (fun _ => false) := by
    have waiting : ∀ p ∈ paths, p.isReady ((host .epoch).reader journey.distinctId .epoch none)
        journey.enteredAt .epoch = false := by
      decide +kernel
    intro p hp ready
    have taken := (WaitPath.isReady_iff (fixed .epoch p hp)).mpr ready
    rw [waiting p hp] at taken
    cases taken
  have opened : ∃ p ∈ paths, p.condition = none ∨ ¬ p.Reached journey.enteredAt .epoch :=
    ⟨_, List.mem_cons_of_mem _ List.mem_cons_self, .inl rfl⟩
  obtain ⟨deadline, here, changes, stays⟩ :=
    (wait_exact (show nudging.action = .waitUntil paths from rfl) journey host (fun _ => true)
      (fun _ => false) fixed .epoch).2.2 unready opened
  have now : (answer .epoch).2 = .finished (.suspend (some tenth)) := by rfl
  obtain rfl : deadline = some tenth :=
    StepResult.suspend.inj (Progress.finished.inj ((congrArg Prod.snd here).symm.trans now))
  exact ⟨(changes tenth rfl).2, fun t le before => stays t le fun d hd => Option.some.inj hd ▸ before⟩

end Step

end Engagement
